import Xenlib.WatchSteps

/-!
The first event of a new watch. XS_WATCH links its watch and then looks whether the node is
there; `xs_watch_timeout` looks first and links its watch two sections later.
-/

set_option autoImplicit false

namespace Xenlib

open Wp Machine

def Shared.Readable (s : Shared) (path : CString) (domid : UInt32) : Prop :=
  ∃ e, foundEntry s.root path = some e ∧ checkPerms e.entry.label .read domid = .ok true

instance (s : Shared) (path : CString) (domid : UInt32) : Decidable (s.Readable path domid) :=
  decidable_of_iff ((foundEntry s.root path).any fun e =>
      (checkPerms e.entry.label .read domid).toOption = some true) (by
    unfold Shared.Readable
    rw [Option.any_eq_true]
    refine exists_congr fun e => and_congr_right fun _ => ?_
    cases checkPerms e.entry.label .read domid <;> simp [Except.toOption])

def WatchAction.localThread : WatchAction → Option Nat
  | .localCheck thread _ _ _ | .localLook thread | .localInsert thread => some thread
  | _ => none

/-- The registration, if there is one under way, has found its node. -/
def LocalPc.fires : LocalPc → Bool
  | .checked call | .looked call => call.fireInitialEvent
  | .idle | .registered _ _ _ => true

section Sections
variable {r : WatchRegistry}

theorem wp_allocs {α : Type} {x : SrvM α} {Q : α → WatchRegistry → Prop} {a : α}
    (hx : x r.shared = .ok (a, r.shared)) (h : Q a r) : wp (unref x) Q (fun _ => True) r := by
  rw [wp_unref]
  exact wp_of_ok hx h

theorem lock_nil {s : Shared} {deadline : Deadline} (h : deadline = .forever ∨ s.locks = []) :
    xssMutexLockDeadline deadline s = .ok (none, s) := by
  unfold xssMutexLockDeadline
  rcases h with rfl | h
  · rfl
  · rw [h]
    cases deadline <;> rfl

theorem wp_queuePendingRef {watch : WatchEntry} {domid : UInt32} {path : CString}
    {deadline : Deadline} (hallocs : r.shared.allocs = [])
    (hlock : deadline = .forever ∨ r.shared.locks = []) :
    wp (queuePendingRef watch domid path deadline)
      (fun _ r' => r'.shared.root = r.shared.root ∧ r'.told = r.told ++ [watch.id])
      (fun _ => True) r := by
  unfold queuePendingRef sysRefGet
  rw [wp_bind]
  refine wp_allocs (alloc_nil hallocs kMalloc_nil) ?_
  refine wp_ite (fun h => by cases h) fun _ => ?_
  rw [wp_bind]
  refine wp_allocs (alloc_nil hallocs kMalloc_nil) ?_
  refine wp_ite (fun h => by cases h) fun _ => ?_
  simp only [wp_bind, wp_modify]
  refine wp_allocs (lock_nil hlock) ?_
  exact ⟨rfl, rfl⟩

theorem wp_initialEvent {wentry : WatchEntry} {domid : UInt32} {path : CString}
    (hallocs : r.shared.allocs = []) :
    wp (initialEvent wentry domid path)
      (fun _ r' => r'.shared.root = r.shared.root ∧
        (r.shared.Readable path domid → r'.told = r.told ++ [wentry.id]))
      (fun _ => True) r := by
  unfold initialEvent
  simp only [wp_bind, wp_get, wp_unref, wp_alloc, hallocs]
  refine wp_keyToEntryCheckPerm (fun e rest hrest _ _ => ?_) (fun rest _ hnone => ?_)
    fun _ => trivial
  · cases List.suffix_nil.mp hrest
    simp only [wp_bind, wp_pure]
    refine wp_conseq (wp_queuePendingRef rfl (Or.inl rfl)) fun _ r' hr' => ?_
    exact ⟨hr'.1, fun _ => hr'.2⟩
  · refine ⟨rfl, ?_⟩
    rintro ⟨e, he, hok⟩
    rcases hnone with hfalse | hnone
    · cases hfalse
    · rw [hnone e he] at hok
      cases hok

theorem wp_checkPath {path : CString} {deadline : Deadline} (hallocs : r.shared.allocs = [])
    (hlocks : r.shared.locks = []) :
    wp (WatchServer.checkPath path deadline)
      (fun b r' => ∀ key fire, b = .ok (key, fire) → fire = false → ¬ r'.shared.Readable key 0)
      (fun _ => True) r := by
  unfold WatchServer.checkPath checkLocal
  rw [wp_bind]
  refine wp_allocs (alloc_nil hallocs (constructPath_nil _ _)) ?_
  cases resolvePath path 0 with
  | error e => exact fun _ _ h => by cases h
  | ok key =>
    simp only [wp_bind]
    refine wp_allocs (lock_nil (Or.inr hlocks)) ?_
    simp only [wp_bind, wp_get, wp_unref, wp_alloc, hallocs]
    refine wp_keyToEntryCheckPerm (fun e rest _ _ _ => ?_) (fun rest _ hnone => ?_) fun _ => trivial
    · rintro _ _ ⟨⟩ hfire
      cases hfire
    · rintro _ _ ⟨⟩ _ ⟨e, he, hok⟩
      rcases hnone with hfalse | hnone
      · cases hfalse
      · rw [hnone e he] at hok
        cases hok

/-- `xs_watch_timeout` queues the event where its check had found the node. -/
theorem wp_createLocal {path key token : CString} {isRelative fire : Bool} {deadline : Deadline}
    (hallocs : r.shared.allocs = []) (hlocks : r.shared.locks = []) :
    wp (createLocal path key token isRelative fire deadline)
      (fun made r' => r'.shared.root = r.shared.root ∧
        ∀ w events, made = .ok (w, events) → fire = true → r'.told = r.told ++ [w.id])
      (fun _ => True) r := by
  unfold createLocal lookLocalDeadline lookLocal insertLocal addWatch queueLocalRef sysRefInit
    sysRefGet
  rw [wp_bind]
  refine wp_allocs (alloc_nil hallocs kMalloc_nil) (wp_ite (fun h => by cases h) fun _ => ?_)
  rw [wp_bind]
  refine wp_allocs (alloc_nil hallocs kMalloc_nil) (wp_ite (fun h => by cases h) fun _ => ?_)
  rw [wp_bind]
  refine wp_allocs (lock_nil (Or.inr hlocks)) ?_
  simp only [wp_bind]
  refine wp_allocs (lock_nil (Or.inr hlocks)) ?_
  simp only [wp_bind, wp_get, wp_unref]
  refine wp_lift (fun found _ => ?_) fun _ _ => trivial
  cases found with
  | some w => exact ⟨rfl, fun _ _ h => by cases h⟩
  | none =>
    simp only [wp_pure, wp_bind, wp_get, wp_modify, wp_unref]
    refine wp_ite (fun _ => ?_) fun hfire => ?_
    · simp only [wp_bind]
      refine wp_ite (fun h => by cases h) fun _ => ?_
      rw [wp_bind]
      refine wp_allocs (alloc_nil hallocs kMalloc_nil) (wp_ite (fun h => by cases h) fun _ => ?_)
      simp only [wp_bind, wp_modify]
      refine wp_ite (fun h => by cases h) fun _ => ?_
      refine ⟨rfl, ?_⟩
      rintro _ _ ⟨⟩ _
      rfl
    · exact ⟨rfl, fun _ _ _ h => absurd h hfire⟩

end Sections

namespace WatchServer

section Frames
variable {s s' : WatchServer} {a : WatchAction} {α : Type}

structure Framed (a : WatchAction) (s s' : WatchServer) : Prop where
  guest : ∀ domid, a.thread ≠ some domid → s'.guest domid = s.guest domid
  localThread : ∀ thread, a.localThread ≠ some thread → s'.localThread thread = s.localThread thread

theorem framed_enter {x : RefM α} {k : α → WatchServer} (h : s.enter x k = some s')
    (hk : ∀ b, Framed a s (k b)) : Framed a s s' := by
  obtain ⟨b, r, -, rfl⟩ := enter_wp (wp_trivial x s.registry) h
  exact ⟨(hk b).guest, (hk b).localThread⟩

theorem framed_enterLocked {x : RefM α} {k : α → WatchServer} (h : s.enterLocked x k = some s')
    (hk : ∀ b, Framed a s (k b)) : Framed a s s' := by
  obtain ⟨_, b, r, -, rfl⟩ := enterLocked_wp (wp_trivial x s.registry) h
  exact ⟨(hk b).guest, (hk b).localThread⟩

theorem framed_setGuest {domid : UInt32} {pc : GuestPc} (h : a.thread = some domid) :
    Framed a s (s.setGuest domid pc) := by
  refine ⟨fun domid' hne => Function.update_of_ne ?_ _ _, fun _ _ => rfl⟩
  rintro rfl
  exact hne h

theorem framed_setLocal {thread : Nat} {pc : LocalPc} (h : a.localThread = some thread) :
    Framed a s (s.setLocal thread pc) := by
  refine ⟨fun _ _ => rfl, fun thread' hne => Function.update_of_ne ?_ _ _⟩
  rintro rfl
  exact hne h

theorem framed_step (hs : s.step a = some s') : Framed a s s' := by
  cases a with
  | notify path deadline => exact framed_enterLocked hs fun _ => ⟨fun _ _ => rfl, fun _ _ => rfl⟩
  | remove key callerId deadline =>
    exact framed_enterLocked hs fun _ => ⟨fun _ _ => rfl, fun _ _ => rfl⟩
  | write path data domid perms deadline =>
    exact framed_enterLocked hs fun _ => ⟨fun _ _ => rfl, fun _ _ => rfl⟩
  | store root => exact framed_enterLocked hs fun _ => ⟨fun _ _ => rfl, fun _ _ => rfl⟩
  | localUnwatch path token deadline =>
    exact framed_enterLocked hs fun _ => ⟨fun _ _ => rfl, fun _ _ => rfl⟩
  | round =>
    simp only [step] at hs
    split at hs
    · exact framed_enter hs fun _ => ⟨fun _ _ => rfl, fun _ _ => rfl⟩
    · cases hs
  | callback =>
    simp only [step] at hs
    split at hs
    · exact framed_enterLocked hs fun _ => ⟨fun _ _ => rfl, fun _ _ => rfl⟩
    · cases hs
  | callbackReturned =>
    simp only [step] at hs
    split at hs
    · exact framed_enterLocked hs fun _ => ⟨fun _ _ => rfl, fun _ _ => rfl⟩
    · cases hs
  | look domid path token isRelative =>
    simp only [step, stepLook] at hs
    split at hs
    · cases hs
    · exact framed_enterLocked hs fun b => by cases b <;> exact framed_setGuest rfl
  | insert domid =>
    simp only [step, stepInsert] at hs
    split at hs
    · exact framed_enterLocked hs fun b => by cases b <;> exact framed_setGuest rfl
    · cases hs
  | initial domid =>
    simp only [step, stepInitial] at hs
    split at hs
    · exact framed_enterLocked hs fun _ => framed_setGuest rfl
    · cases hs
  | unwatch domid path token =>
    simp only [step] at hs
    split at hs
    · cases hs
    · exact framed_enterLocked hs fun _ => framed_setGuest rfl
  | cleanupWatches domid =>
    simp only [step] at hs
    split at hs
    · cases hs
    · exact framed_enterLocked hs fun _ => framed_setGuest rfl
  | cleanupEvents domid =>
    simp only [step, stepCleanupEvents] at hs
    split at hs
    · exact framed_enter hs fun _ => framed_setGuest rfl
    · cases hs
  | process domid =>
    simp only [step] at hs
    split at hs
    · cases hs
    · exact framed_enterLocked hs fun _ => ⟨fun _ _ => rfl, fun _ _ => rfl⟩
  | client domid x =>
    simp only [step] at hs
    split at hs
    · cases hs
      exact ⟨fun _ _ => rfl, fun _ _ => rfl⟩
    · cases hs
  | localCheck thread path token deadline =>
    simp only [step, stepLocalCheck] at hs
    split at hs
    · cases hs
    · exact framed_enterLocked hs fun b => by cases b <;> exact framed_setLocal rfl
  | localLook thread =>
    simp only [step, stepLocalLook] at hs
    split at hs
    · exact framed_enterLocked hs fun b => by cases b <;> exact framed_setLocal rfl
    · cases hs
  | localInsert thread =>
    simp only [step, stepLocalInsert] at hs
    split at hs
    · refine framed_enterLocked hs fun b => ?_
      cases b with
      | error e => exact framed_setLocal rfl
      | ok made =>
        obtain ⟨hguest, hlocal⟩ := @framed_setLocal s (.localInsert thread) thread
          (.registered made.1.id _ _) rfl
        exact ⟨hguest, hlocal⟩
    · cases hs

end Frames

/-- A call of `xs_watch_timeout` is between its check and its last section. -/
def Waits (s : WatchServer) (thread : Nat) (call : LocalCallArgs) : Prop :=
  s.localThread thread = .checked call ∨ s.localThread thread = .looked call

def Completes (s s' : WatchServer) (domid : UInt32) (watch : Nat) (path : CString) (began : Nat) :
    Prop :=
  (s.guest domid ≠ .registered watch path began ∧
    s'.guest domid = .registered watch path began) ∨
  (domid = 0 ∧ ∃ thread, s.localThread thread ≠ .registered watch path began ∧
    s'.localThread thread = .registered watch path began)

section Completes
variable {s s' : WatchServer} {a : WatchAction}

theorem mem_drop_told {told : List Nat} {began watch : Nat} (h : began ≤ told.length) :
    watch ∈ (told ++ [watch]).drop began := by
  rw [List.drop_append_of_le_length h]
  exact List.mem_append_right _ List.mem_cons_self

theorem Readable.congr {t t' : Shared} {path : CString} {domid : UInt32} (h : t'.root = t.root)
    (hread : t'.Readable path domid) : t.Readable path domid := by
  unfold Shared.Readable at hread ⊢
  rwa [h] at hread

theorem completed_guest {domid : UInt32} {watch : Nat} {path : CString} {began : Nat}
    (hs : s.step a = some s') (hbefore : s.guest domid ≠ .registered watch path began)
    (hafter : s'.guest domid = .registered watch path began) : a = .initial domid := by
  have hthread : a.thread = some domid := by
    by_contra hne
    exact hbefore (((framed_step hs).guest domid hne).symm.trans hafter)
  cases a with
  | initial domid' =>
    cases hthread
    rfl
  | look domid' path' token isRelative =>
    cases hthread
    simp only [step, stepLook] at hs
    split at hs
    · cases hs
    · obtain ⟨_, found, r, -, rfl⟩ := enterLocked_wp (wp_trivial _ _) hs
      cases found <;> simp [setGuest] at hafter
  | insert domid' =>
    cases hthread
    simp only [step, stepInsert] at hs
    split at hs
    · obtain ⟨_, made, r, -, rfl⟩ := enterLocked_wp (wp_trivial _ _) hs
      cases made <;> simp [setGuest] at hafter
    · cases hs
  | unwatch domid' path' token =>
    cases hthread
    simp only [step] at hs
    split at hs
    · cases hs
    · obtain ⟨_, _, r, -, rfl⟩ := enterLocked_wp (wp_trivial _ _) hs
      simp [setGuest] at hafter
  | cleanupWatches domid' =>
    cases hthread
    simp only [step] at hs
    split at hs
    · cases hs
    · obtain ⟨_, _, r, -, rfl⟩ := enterLocked_wp (wp_trivial _ _) hs
      simp [setGuest] at hafter
  | cleanupEvents domid' =>
    cases hthread
    simp only [step, stepCleanupEvents] at hs
    split at hs
    · obtain ⟨_, r, -, rfl⟩ := enter_wp (wp_trivial _ _) hs
      simp [setGuest] at hafter
    · cases hs
  | process domid' =>
    simp only [step] at hs
    split at hs
    · cases hs
    · obtain ⟨_, _, r, -, rfl⟩ := enterLocked_wp (wp_trivial _ _) hs
      exact absurd hafter hbefore
  | client domid' x =>
    simp only [step] at hs
    split at hs
    · cases hs
      exact absurd hafter hbefore
    · cases hs
  | notify _ _ | remove _ _ _ | round | callback | callbackReturned | write _ _ _ _ _ | store _
  | localCheck _ _ _ _ | localLook _ | localInsert _ | localUnwatch _ _ _ => cases hthread

theorem initial_hears {domid : UInt32} {watch : Nat} {path : CString} {began : Nat} (hi : s.Inv)
    (hallocs : s.registry.shared.allocs = []) (hs : s.step (.initial domid) = some s')
    (hafter : s'.guest domid = .registered watch path began)
    (hread : s'.registry.shared.Readable path domid) : watch ∈ s'.registry.told.drop began := by
  simp only [step, stepInitial] at hs
  split at hs
  · rename_i wentry path' began' hpc
    have hbegan := hi.guest domid
    rw [hpc] at hbegan
    obtain ⟨_, _, r, ⟨hroot, htold⟩, rfl⟩ := enterLocked_wp (wp_initialEvent hallocs) hs
    simp only [setGuest, Function.update_self, GuestPc.registered.injEq] at hafter
    obtain ⟨rfl, rfl, rfl⟩ := hafter
    show wentry.id ∈ r.told.drop _
    rw [htold (Readable.congr hroot hread)]
    exact mem_drop_told hbegan.2
  · cases hs

theorem completed_local {thread : Nat} {watch : Nat} {path : CString} {began : Nat}
    (hs : s.step a = some s') (hbefore : s.localThread thread ≠ .registered watch path began)
    (hafter : s'.localThread thread = .registered watch path began) : a = .localInsert thread := by
  have hthread : a.localThread = some thread := by
    by_contra hne
    exact hbefore (((framed_step hs).localThread thread hne).symm.trans hafter)
  cases a with
  | localInsert thread' =>
    cases hthread
    rfl
  | localCheck thread' path' token deadline =>
    cases hthread
    simp only [step, stepLocalCheck] at hs
    split at hs
    · cases hs
    · obtain ⟨_, b, r, -, rfl⟩ := enterLocked_wp (wp_trivial _ _) hs
      cases b <;> simp [setLocal] at hafter
  | localLook thread' =>
    cases hthread
    simp only [step, stepLocalLook] at hs
    split at hs
    · obtain ⟨_, rc, r, -, rfl⟩ := enterLocked_wp (wp_trivial _ _) hs
      cases rc <;> simp [setLocal] at hafter
    · cases hs
  | notify _ _ | remove _ _ _ | round | callback | callbackReturned | write _ _ _ _ _ | store _
  | look _ _ _ _ | insert _ | initial _ | unwatch _ _ _ | cleanupWatches _ | cleanupEvents _
  | process _ | client _ _ | localUnwatch _ _ _ => cases hthread

/-- A local watch hears of its node, unless the node appeared after the check. -/
theorem localInsert_hears {thread : Nat} {watch : Nat} {path : CString} {began : Nat} (hi : s.Inv)
    (hallocs : s.registry.shared.allocs = []) (hlocks : s.registry.shared.locks = [])
    (hsilent : ∀ call, s.Waits thread call → call.fireInitialEvent = false →
      ¬ s.registry.shared.Readable call.key 0)
    (hs : s.step (.localInsert thread) = some s')
    (hafter : s'.localThread thread = .registered watch path began)
    (hread : s'.registry.shared.Readable path 0) : watch ∈ s'.registry.told.drop began := by
  simp only [step, stepLocalInsert] at hs
  split at hs
  · rename_i call hpc
    have hbegan := hi.localThread thread
    rw [hpc] at hbegan
    obtain ⟨_, made, r, ⟨hroot, htold⟩, rfl⟩ := enterLocked_wp (wp_createLocal hallocs hlocks) hs
    cases made with
    | error e => simp [setLocal] at hafter
    | ok made =>
      obtain ⟨w, events⟩ := made
      simp only [setLocal, Function.update_self, LocalPc.registered.injEq] at hafter
      obtain ⟨rfl, rfl, rfl⟩ := hafter
      have hfire : call.fireInitialEvent = true := by
        by_contra hne
        exact hsilent call (Or.inr hpc) (by simpa using hne) (Readable.congr hroot hread)
      show w.id ∈ r.told.drop _
      rw [htold w events rfl hfire]
      exact mem_drop_told hbegan
  · cases hs

end Completes

/-- Allocations and locks succeed, and no step leaves a node at the path of a local registration
that has found none and is not complete yet. -/
structure Steady (s : WatchServer) (a : WatchAction) : Prop where
  allocs : s.registry.shared.allocs = []
  locks : s.registry.shared.locks = []
  uncreated : ∀ s', s.step a = some s' → ∀ thread call, s.Waits thread call →
    call.fireInitialEvent = false → ¬ s'.registry.shared.Readable call.key 0

def Silent (s : WatchServer) : Prop :=
  ∀ thread call, s.Waits thread call → call.fireInitialEvent = false →
    ¬ s.registry.shared.Readable call.key 0

section Runs
variable {s s' : WatchServer} {a : WatchAction}

theorem waits_check {thread : Nat} {path token : CString} {deadline : Deadline}
    {call : LocalCallArgs} (hallocs : s.registry.shared.allocs = [])
    (hlocks : s.registry.shared.locks = [])
    (hs : s.step (.localCheck thread path token deadline) = some s') (hw : s'.Waits thread call)
    (hfire : call.fireInitialEvent = false) : ¬ s'.registry.shared.Readable call.key 0 := by
  simp only [step, stepLocalCheck] at hs
  split at hs
  · cases hs
  · obtain ⟨_, b, r, hb, rfl⟩ := enterLocked_wp (wp_checkPath hallocs hlocks) hs
    cases b with
    | error e => simp [Waits, setLocal] at hw
    | ok b =>
      obtain ⟨key, fire⟩ := b
      simp only [Waits, setLocal, Function.update_self, LocalPc.checked.injEq, reduceCtorEq,
        or_false] at hw
      subst hw
      exact hb key fire rfl hfire

theorem waits_look {thread : Nat} {call : LocalCallArgs}
    (hs : s.step (.localLook thread) = some s') (hw : s'.Waits thread call) :
    s.Waits thread call := by
  simp only [step, stepLocalLook] at hs
  split at hs
  · rename_i call' hpc
    obtain ⟨_, rc, r, -, rfl⟩ := enterLocked_wp (wp_trivial _ _) hs
    cases rc with
    | some e => simp [Waits, setLocal] at hw
    | none =>
      simp only [Waits, setLocal, Function.update_self, LocalPc.looked.injEq, reduceCtorEq,
        false_or] at hw
      subst hw
      exact Or.inl hpc
  · cases hs

theorem waits_insert {thread : Nat} {call : LocalCallArgs}
    (hs : s.step (.localInsert thread) = some s') : ¬ s'.Waits thread call := by
  simp only [step, stepLocalInsert] at hs
  split at hs
  · obtain ⟨_, made, r, -, rfl⟩ := enterLocked_wp (wp_trivial _ _) hs
    cases made <;> simp [Waits, setLocal]
  · cases hs

theorem silent_step (hc : s.Steady a) (hs : s.step a = some s') : s'.Silent := by
  intro thread call hw hfire
  by_cases hthread : a.localThread = some thread
  · cases a with
    | localCheck thread' path token deadline =>
      cases hthread
      exact waits_check hc.allocs hc.locks hs hw hfire
    | localLook thread' =>
      cases hthread
      exact hc.uncreated s' hs thread call (waits_look hs hw) hfire
    | localInsert thread' =>
      cases hthread
      exact absurd hw (waits_insert hs)
    | notify _ _ | remove _ _ _ | round | callback | callbackReturned | write _ _ _ _ _ | store _
    | look _ _ _ _ | insert _ | initial _ | unwatch _ _ _ | cleanupWatches _ | cleanupEvents _
    | process _ | client _ _ | localUnwatch _ _ _ => cases hthread
  · have hw' : s.Waits thread call := by
      unfold Waits at hw ⊢
      rwa [(framed_step hs).localThread thread hthread] at hw
    exact hc.uncreated s' hs thread call hw' hfire

end Runs

/-- Where no node appears at the path of a local registration between its check and its last
section, every registration that completes has queued an event if the watcher can read the
node. -/
theorem new_watch_hears {s s₁ s₂ : WatchServer} {as : List WatchAction} {a : WatchAction}
    (hs : s.Start) (hc : Along step Steady s as) (h : run step s as = some s₁)
    (hca : s₁.Steady a) (ha : s₁.step a = some s₂) {domid : UInt32} {watch : Nat}
    {path : CString} {began : Nat} (hdone : Completes s₁ s₂ domid watch path began)
    (hread : s₂.registry.shared.Readable path domid) :
    watch ∈ s₂.registry.told.drop began := by
  have hstart : s.Silent := by
    intro thread call hw
    unfold Waits at hw
    rw [hs.localThread thread] at hw
    rcases hw with hw | hw <;> cases hw
  obtain ⟨hi, hsilent⟩ : s₁.Inv ∧ s₁.Silent :=
    run_invariant (I := fun s => s.Inv ∧ s.Silent)
      (fun _ _ _ hi hc hstep => ⟨step_inv hi.1 hstep, silent_step hc hstep⟩)
      ⟨hs.inv, hstart⟩ hc h
  rcases hdone with ⟨hbefore, hafter⟩ | ⟨rfl, thread, hbefore, hafter⟩
  · obtain rfl := completed_guest ha hbefore hafter
    exact initial_hears hi hca.allocs ha hafter hread
  · obtain rfl := completed_local ha hbefore hafter
    exact localInsert_hears hi hca.allocs hca.locks (hsilent thread) ha hafter hread

theorem along_steady {s : WatchServer} {as : List WatchAction}
    (hthreads : ∀ a ∈ as, ∀ thread, a.localThread = some thread → thread = 0)
    (hidle : ∀ thread, thread ≠ 0 → s.localThread thread = .idle)
    (h : Along step (fun s _ => s.registry.shared.allocs = [] ∧ s.registry.shared.locks = [] ∧
      (s.localThread 0).fires = true) s as) : Along step Steady s as := by
  induction as generalizing s with
  | nil => trivial
  | cons a as ih =>
    obtain ⟨⟨hallocs, hlocks, hfires⟩, hrest⟩ := h
    refine ⟨⟨hallocs, hlocks, ?_⟩, fun s' hs' => ?_⟩
    · rintro s' - thread call hw hsilent
      by_cases ht : thread = 0
      · subst ht
        rcases hw with hw | hw <;> rw [hw] at hfires <;> rw [LocalPc.fires, hsilent] at hfires <;>
          cases hfires
      · rcases hw with hw | hw <;> rw [hidle thread ht] at hw <;> cases hw
    · refine ih (fun b hb => hthreads b (List.mem_cons_of_mem _ hb)) (fun thread ht => ?_)
        (hrest s' hs')
      rw [(framed_step hs').localThread thread
        fun heq => ht (hthreads a List.mem_cons_self thread heq)]
      exact hidle thread ht

/-- "/a" is there when a local client begins to watch it. -/
def watchExisting : List WatchAction :=
  [.localCheck 0 (ascii ['/', 'a']) (ascii ['t']) .forever, .localLook 0]

theorem new_watch_hears_existing : ∃ s₁ s₂,
    run step (fresh ownedByOne) watchExisting = some s₁ ∧
    s₁.step (.localInsert 0) = some s₂ ∧
    Completes s₁ s₂ 0 0 (ascii ['/', 'a']) 0 ∧
    s₂.registry.shared.Readable (ascii ['/', 'a']) 0 ∧ 0 ∈ s₂.registry.told.drop 0 := by
  have hvals : ((run step (fresh ownedByOne) watchExisting).bind fun s₁ =>
      (s₁.step (.localInsert 0)).map fun s₂ =>
        (s₁.localThread 0 ≠ .registered 0 (ascii ['/', 'a']) 0 ∧
          s₂.localThread 0 = .registered 0 (ascii ['/', 'a']) 0 ∧
          s₂.registry.shared.Readable (ascii ['/', 'a']) 0 : Bool)) = some true := by
    decide +kernel
  obtain ⟨s₁, h₁, hs₁⟩ := Option.bind_eq_some_iff.mp hvals
  obtain ⟨s₂, h₂, hs₂⟩ := Option.map_eq_some_iff.mp hs₁
  obtain ⟨hbefore, hafter, hread⟩ := of_decide_eq_true hs₂
  have hlocal : ∀ a ∈ watchExisting ++ [.localInsert 0], ∀ thread,
      a.localThread = some thread → thread = 0 := by
    simp [watchExisting, WatchAction.localThread]
  have hsteady : Along step Steady (fresh ownedByOne) (watchExisting ++ [.localInsert 0]) :=
    along_steady hlocal (fun _ _ => rfl) (by decide +kernel)
  obtain ⟨hc, hca, -⟩ := along_append hsteady h₁
  have hdone : Completes s₁ s₂ 0 0 (ascii ['/', 'a']) 0 := Or.inr ⟨rfl, 0, hbefore, hafter⟩
  exact ⟨s₁, s₂, h₁, h₂, hdone, hread,
    new_watch_hears (fresh_start ownedByOne) hc h₁ hca h₂ hdone hread⟩

/-- "/b" is written, and all watches are told, after a local client has found that it is not
there. -/
def writeAfterCheck : List WatchAction :=
  [.localCheck 0 (ascii ['/', 'b']) (ascii ['t']) .forever,
   .write (ascii ['/', 'b']) (some (ascii ['v'])) 0 [⟨0, .none⟩] .forever,
   .notify (ascii ['/', 'b']) .forever, .round, .localLook 0]

/-- Nobody tells the new watch. -/
theorem new_watch_deaf : ∃ s₁ s₂,
    run step (fresh ownedByOne) writeAfterCheck = some s₁ ∧
    s₁.step (.localInsert 0) = some s₂ ∧
    Completes s₁ s₂ 0 0 (ascii ['/', 'b']) 0 ∧
    s₂.registry.shared.Readable (ascii ['/', 'b']) 0 ∧ s₂.scan = none ∧
    s₂.registry.told = [] := by
  have hvals : ((run step (fresh ownedByOne) writeAfterCheck).bind fun s₁ =>
      (s₁.step (.localInsert 0)).map fun s₂ =>
        (s₁.localThread 0 ≠ .registered 0 (ascii ['/', 'b']) 0 ∧
          s₂.localThread 0 = .registered 0 (ascii ['/', 'b']) 0 ∧
          s₂.registry.shared.Readable (ascii ['/', 'b']) 0 ∧ s₂.scan.isNone = true ∧
          s₂.registry.told = [] : Bool)) = some true := by
    decide +kernel
  obtain ⟨s₁, h₁, hs₁⟩ := Option.bind_eq_some_iff.mp hvals
  obtain ⟨s₂, h₂, hs₂⟩ := Option.map_eq_some_iff.mp hs₁
  obtain ⟨hbefore, hafter, hread, hscan, htold⟩ := of_decide_eq_true hs₂
  exact ⟨s₁, s₂, h₁, h₂, Or.inr ⟨rfl, 0, hbefore, hafter⟩, hread,
    Option.isNone_iff_eq_none.mp hscan, htold⟩

end WatchServer

end Xenlib
