import Xenlib.WatchLifetime

/-!
`cleanup_domain_watches` holds `wel_mutex` and `pfl_mutex` one after the other, and other
threads may queue events in between. When it returns nothing refers to the domain any more.
-/

set_option autoImplicit false

namespace Xenlib

open Wp Machine

namespace WatchRegistry

/-- No watch on the list and no event is of the domain. -/
structure Forgot (r : WatchRegistry) (domid : UInt32) : Prop where
  watches : ∀ w ∈ linkedWatches r.shared, w.domain ≠ some domid
  pending : ∀ e ∈ r.shared.pendingWatchEventList, e.domain ≠ domid

/-- The watches and the events of all other domains are the same. -/
structure SameOthers (domid : UInt32) (r r' : WatchRegistry) : Prop where
  watches : r'.shared.watches.filter (fun w => w.domain ≠ some domid) =
    r.shared.watches.filter fun w => w.domain ≠ some domid
  pending : r'.shared.pendingWatchEventList.filter (fun e => e.domain ≠ domid) =
    r.shared.pendingWatchEventList.filter fun e => e.domain ≠ domid

variable {r r' : WatchRegistry} {domid : UInt32}

theorem noWatch_iff : r.NoWatch domid ↔ ∀ w ∈ linkedWatches r.shared, w.domain ≠ some domid := by
  constructor
  · intro h w hw hdomain
    have hlinked := linkedAs_of_mem hw
    rw [hdomain] at hlinked
    exact h w.id hlinked
  · rintro h id ⟨w, hw, _, hdomain, hlinked⟩
    exact h w (List.mem_filter.mpr ⟨hw, hlinked⟩) hdomain

/-- An event is queued for a watch on the list only, so none is queued for the domain. -/
theorem Forgot.makes {c : Change} (h : r.Forgot domid) (hm : Makes c r r')
    (hc : ∀ w, c = .insert w → w.domain ≠ some domid) : r'.Forgot domid := by
  have hrelinks : c.relinks = some domid → ∃ w, c = .unlink w := by
    intro hrel
    cases c with
    | insert w => exact absurd hrel (hc w rfl)
    | unlink w => exact ⟨w, rfl⟩
    | quiet | reform _ _ | queue _ | bounce _ | take _ | hold _ | drop _ => cases hrel
  have hwatch : r'.NoWatch domid := by
    have hnone := noWatch_iff.mpr h.watches
    by_cases hrel : c.relinks = some domid
    · obtain ⟨w, rfl⟩ := hrelinks hrel
      cases hm with
      | unlink hw =>
        have hlinked := linkedAs_of_mem hw
        rw [show w.domain = some domid from hrel] at hlinked
        exact absurd hlinked (hnone w.id)
    · exact fun id hl => hnone id (hm.linked_before hrel hl)
  refine ⟨noWatch_iff.mp hwatch, fun e he hdomain => ?_⟩
  cases hm with
  | quiet hs =>
    rw [hs.same.pending] at he
    exact h.pending e he hdomain
  | queue hlinked =>
    rcases List.mem_append.mp he with he | he
    · exact h.pending e he hdomain
    · cases List.mem_singleton.mp he
      rw [hdomain] at hlinked
      exact noWatch_iff.mpr h.watches _ hlinked
  | @take _ e' before after hp _ =>
    refine h.pending e ?_ hdomain
    rw [hp]
    rcases List.mem_append.mp he with he | he
    · exact List.mem_append_left _ he
    · exact List.mem_append_right _ (List.mem_cons_of_mem _ he)
  | reform _ | insert _ _ | bounce _ | unlink _ | hold _ | drop _ => exact h.pending e he hdomain

theorem SameOthers.trans {r'' : WatchRegistry} (h : SameOthers domid r r')
    (h' : SameOthers domid r' r'') : SameOthers domid r r'' :=
  ⟨h'.watches.trans h.watches, h'.pending.trans h.pending⟩

theorem sameOthers_unlink (hr : r.Ordered) {w : WatchEntry} (hw : w ∈ linkedWatches r.shared)
    (hdomain : w.domain = some domid) :
    SameOthers domid r ((r.unlinked w.id).putRef w.id) := by
  refine ⟨?_, rfl⟩
  have hown : ∀ u ∈ r.shared.watches, u.id = w.id → u.domain = some domid := by
    intro u hu hid
    rw [hr.unique hu (List.mem_of_mem_filter hw) hid]
    exact hdomain
  show (r.shared.watches.map _).filter _ = _
  generalize r.shared.watches = watches at hown
  induction watches with
  | nil => rfl
  | cons u us ih =>
    have hus := ih fun v hv => hown v (List.mem_cons_of_mem _ hv)
    rw [List.map_cons]
    by_cases hid : u.id = w.id
    · have hu := hown u List.mem_cons_self hid
      rw [if_pos hid, List.filter_cons_of_neg (by simp [hu]),
        List.filter_cons_of_neg (by simp [hu]), hus]
    · rw [if_neg hid, List.filter_cons, List.filter_cons, hus]

theorem sameOthers_take {e : PendingWatchEvent} {before after : List PendingWatchEvent}
    (hp : r.shared.pendingWatchEventList = before ++ e :: after) (hdomain : e.domain = domid) :
    SameOthers domid r (r.takeTo e (before ++ after)) := by
  refine ⟨rfl, ?_⟩
  show (before ++ after).filter _ = _
  rw [hp, List.filter_append, List.filter_append,
    List.filter_cons_of_neg (by simpa using hdomain)]

end WatchRegistry

/-- What `cleanup_domain_watches` does. -/
def Change.CleansUp (domid : UInt32) : Change → Prop
  | .unlink w => w.domain = some domid
  | .take e => e.domain = domid
  | _ => False

theorem Does.sameOthers {r r' : WatchRegistry} {domid : UInt32}
    (h : Does (Change.CleansUp domid) r r') (hr : r.Ordered) :
    WatchRegistry.SameOthers domid r r' := by
  refine (h.keeps (I := fun r' => r'.Ordered ∧ WatchRegistry.SameOthers domid r r') ?_
    ⟨hr, rfl, rfl⟩).2
  intro c r₁ r₂ hc hm hr₁
  refine ⟨hm.ordered hr₁.1, hr₁.2.trans ?_⟩
  cases hm with
  | unlink hw => exact WatchRegistry.sameOthers_unlink hr₁.1 hw hc
  | take hp _ => exact WatchRegistry.sameOthers_take hp hc
  | quiet _ | reform _ | insert _ _ | queue _ | bounce _ | hold _ | drop _ => exact hc.elim

namespace WatchServer

variable {s s' : WatchServer} {domid : UInt32}

theorem forgot_step {a : WatchAction} (hi : s.Inv) (h : s.registry.Forgot domid)
    (hs : s.step a = some s') (ha : a ≠ .insert domid) : s'.registry.Forgot domid := by
  refine (steps hi hs).does.keeps (I := fun r => r.Forgot domid)
    (fun c _ _ hc hm hr => hr.makes hm ?_) h
  rintro w rfl hdomain
  cases a with
  | insert domid' => exact ha (by rw [Option.some.inj (hc.symm.trans hdomain)])
  | localInsert _ => cases hc.symm.trans hdomain
  | _ => exact hc

theorem forgot_cleanup (hi : s.Inv) (hs : s.step (.cleanupEvents domid) = some s') :
    s'.registry.Forgot domid := by
  have hguest := hi.guest domid
  obtain ⟨hdoes, -, -⟩ := steps hi hs
  simp only [step, stepCleanupEvents] at hs
  split at hs
  · rename_i hpc
    rw [hpc] at hguest
    obtain ⟨_, r, hd, hpending, rfl⟩ :=
      enter_ran (ran_cleanupEvents (P := Change.CleansUp domid) fun _ he => he) hs
    refine ⟨WatchRegistry.noWatch_iff.mp ?_, hpending⟩
    refine hdoes.keeps (I := fun r => r.NoWatch domid) (fun c _ _ hc hm hr id hl => ?_) hguest
    refine hr id (hm.linked_before (fun hrel => ?_) hl)
    cases c with
    | insert _ | unlink _ => exact hc
    | quiet | reform _ _ | queue _ | bounce _ | take _ | hold _ | drop _ => cases hrel
  · cases hs

theorem cleanup_sameOthers (hi : s.Inv) {a : WatchAction}
    (ha : a = .cleanupWatches domid ∨ a = .cleanupEvents domid) (hs : s.step a = some s') :
    WatchRegistry.SameOthers domid s.registry s'.registry := by
  rcases ha with rfl | rfl
  · simp only [step] at hs
    split at hs
    · cases hs
    · obtain ⟨_, _, r, hd, _, rfl⟩ := enterLocked_ran
        (ran_cleanupWatches (P := Change.CleansUp domid) hi.ordered fun _ hw => hw) hs
      exact hd.sameOthers hi.ordered
  · simp only [step, stepCleanupEvents] at hs
    split at hs
    · obtain ⟨_, r, hd, _, rfl⟩ :=
        enter_ran (ran_cleanupEvents (P := Change.CleansUp domid) fun _ he => he) hs
      exact hd.sameOthers hi.ordered
    · cases hs

/-- When `cleanup_domain_watches` returns, no watch and no event of the domain is left, and no
step brings one back until the domain registers a watch again. Both sections leave the watches and
events of other domains alone. -/
theorem cleanup_forgets {s s₁ : WatchServer} {as : List WatchAction} (hs : s.Start)
    (h : run step s as = some s₁) (domid : UInt32) :
    (∀ s₂, s₁.step (.cleanupEvents domid) = some s₂ →
      ∀ bs s₃, run step s₂ bs = some s₃ → .insert domid ∉ bs → s₃.registry.Forgot domid) ∧
    ∀ a, a = .cleanupWatches domid ∨ a = .cleanupEvents domid → ∀ s₂, s₁.step a = some s₂ →
      WatchRegistry.SameOthers domid s₁.registry s₂.registry := by
  obtain ⟨hi, -⟩ := run_counted hs h
  refine ⟨fun s₂ h₂ bs => ?_, fun a ha s₂ h₂ => cleanup_sameOthers hi ha h₂⟩
  have hi₂ := step_inv hi h₂
  have hforgot := forgot_cleanup hi h₂
  clear h₂ hi h
  induction bs generalizing s₂ with
  | nil =>
    intro s₃ hrun _
    cases hrun
    exact hforgot
  | cons a bs ih =>
    intro s₃ hrun hnot
    obtain ⟨s₄, h₄, hrest⟩ := run_cons hrun
    simp only [List.mem_cons, not_or] at hnot
    exact ih s₄ (step_inv hi₂ h₄) (forgot_step hi₂ hforgot h₄ (Ne.symm hnot.1)) s₃ hrest hnot.2

/-- A notification is under way when domain 1 begins to clean up, and another one starts between
the two sections. -/
def cleanupAmongNotifications : List WatchAction :=
  [.look 1 (ascii ['/', 'a']) [116, 0] false, .insert 1, .initial 1,
   .notify (ascii ['/', 'a']) .forever, .round, .round, .cleanupWatches 1,
   .notify (ascii ['/', 'a']) .forever]

theorem cleanup_forgets_notified : ∃ s₁ s₂ s₃,
    run step (fresh ownedByOne) cleanupAmongNotifications = some s₁ ∧
    s₁.registry.shared.pendingWatchEventList ≠ [] ∧
    s₁.step (.cleanupEvents 1) = some s₂ ∧ run step s₂ [.round] = some s₃ ∧
    s₃.registry.Forgot 1 := by
  have hvals : (run step (fresh ownedByOne) cleanupAmongNotifications).map (fun s =>
      (decide (s.registry.shared.pendingWatchEventList ≠ []),
        ((s.step (.cleanupEvents 1)).bind fun s => run step s [.round]).isSome)) =
      some (true, true) := by
    decide +kernel
  obtain ⟨s₁, h₁, hs₁⟩ := Option.map_eq_some_iff.mp hvals
  obtain ⟨hpending, hrest⟩ := Prod.mk.inj hs₁
  obtain ⟨s₃, hs₃⟩ := Option.isSome_iff_exists.mp hrest
  obtain ⟨s₂, h₂, h₃⟩ := Option.bind_eq_some_iff.mp hs₃
  refine ⟨s₁, s₂, s₃, h₁, of_decide_eq_true hpending, h₂, h₃, ?_⟩
  refine (cleanup_forgets (fresh_start ownedByOne) h₁ 1).1 s₂ h₂ [.round] s₃ h₃ ?_
  simp

end WatchServer

end Xenlib
