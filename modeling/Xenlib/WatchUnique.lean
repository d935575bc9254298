import Xenlib.WatchRegistration

/-!
No watch is on the list twice. A guest looks for its watch and links a new one in two sections,
which is enough because the guest has one thread; a client of Dom0 looks again in the section
that links.
-/

set_option autoImplicit false

namespace Xenlib

open Wp Machine

/-- What `key_to_watcher` tells watches apart by. -/
def WatchEntry.ident (w : WatchEntry) : Option UInt32 × CString × CString :=
  (w.domain, w.key, strHead w.token)

def WatchEntry.SameAs (v w : WatchEntry) : Prop :=
  v.domain = w.domain ∧ v.key = w.key ∧ strHead v.token = strHead w.token

theorem WatchEntry.sameAs_iff (v w : WatchEntry) : v.SameAs w ↔ v.ident = w.ident := by
  simp [SameAs, ident]

def WatchRegistry.idents (r : WatchRegistry) : List (Option UInt32 × CString × CString) :=
  (linkedWatches r.shared).map WatchEntry.ident

section Idents
variable {P : Change → Prop} {r r' : WatchRegistry}

theorem idents_bare (r : WatchRegistry) : r.idents =
    ((r.shared.watches.map WatchEntry.bare).filter (·.linked)).map WatchEntry.ident := by
  unfold WatchRegistry.idents linkedWatches
  rw [List.filter_map, List.map_map]
  rfl

theorem WatchRegistry.Same.idents (h : r.Same r') : r'.idents = r.idents := by
  rw [idents_bare, idents_bare, h.watches]

theorem idents_link {w : WatchEntry} (h : w.linked = true) :
    (r.link w).idents = r.idents ++ [w.ident] := by
  simp [WatchRegistry.idents, WatchRegistry.link, linkedWatches, List.filter_append, h]

theorem idents_unlinked (id : Nat) : (r.unlinked id).idents.Sublist r.idents := by
  simp only [WatchRegistry.idents, WatchRegistry.unlinked, linkedWatches]
  induction r.shared.watches with
  | nil => exact .slnil
  | cons w ws ih =>
    by_cases hid : w.id = id
    · rw [List.map_cons, if_pos hid, List.filter_cons_of_neg (by simp), List.filter_cons]
      split
      · exact ih.trans (List.sublist_cons_self _ _)
      · exact ih
    · rw [List.map_cons, if_neg hid, List.filter_cons, List.filter_cons]
      split
      · exact ih.cons_cons _
      · exact ih

theorem Makes.idents {c : Change} (h : Makes c r r') (hc : ∀ w, c ≠ .insert w) :
    r'.idents.Sublist r.idents := by
  cases h with
  | quiet h => rw [h.same.idents]
  | reform _ => rw [(WatchRegistry.same_reformed _ _ _).idents]
  | insert _ _ => exact absurd rfl (hc _)
  | unlink _ => exact idents_unlinked _
  | queue _ | bounce _ | take _ _ | hold _ | drop _ => exact .refl _

theorem Does.idents (h : Does P r r') (hP : ∀ w, ¬ P (.insert w)) :
    r'.idents.Sublist r.idents := by
  refine h.keeps (I := fun r₁ => r₁.idents.Sublist r.idents) ?_ (.refl _)
  intro c r₁ r₂ hc hm hr₁
  exact (hm.idents fun w hw => hP w (hw ▸ hc)).trans hr₁

theorem Makes.scans_idents {c : Change} (h : Makes c r r') (hc : c.Scans) :
    r'.idents = r.idents := by
  cases h with
  | quiet h => exact h.same.idents
  | reform _ | insert _ _ | unlink _ | take _ _ | drop _ => exact hc.elim
  | queue _ | bounce _ | hold _ => rfl

theorem Does.scans_idents (h : Does Change.Scans r r') : r'.idents = r.idents :=
  h.keeps (I := fun r₁ => r₁.idents = r.idents)
    (fun _ _ _ hc hm hr₁ => (hm.scans_idents hc).trans hr₁) rfl

theorem Ran.scans_idents {α : Type} {x : RefM α} {Q : α → WatchRegistry → Prop}
    (h : Ran Change.Scans r x Q) : Ran Change.Scans r x fun _ r' => r'.idents = r.idents :=
  h.mono fun _ _ hd _ => hd.scans_idents

end Idents

theorem strHead_of_readStr {mem : Bytes} {t : CString} (h : readStr mem = .ok t) :
    strHead mem = t := by
  induction mem generalizing t with
  | nil => simp [readStr] at h
  | cons b bs ih =>
    unfold readStr at h
    unfold strHead
    split at h
    · cases h
      simp [*]
    · rename_i hb
      rw [dif_neg hb]
      cases hbs : readStr bs with
      | error e => simp [hbs] at h
      | ok t' =>
        rw [ih hbs]
        simpa [hbs] using h

theorem tokenMatches_false {token block : Bytes} (h : tokenMatches token block = .ok false) :
    strHead block ≠ strHead token := by
  unfold tokenMatches at h
  cases ht : readStr token with
  | error e => simp [ht] at h
  | ok t =>
    cases hb : readStr block with
    | error e => cases t <;> simp [ht, hb] at h
    | ok u =>
      rw [strHead_of_readStr ht, strHead_of_readStr hb]
      cases t with
      | nil => simp [ht] at h
      | cons c t => simpa [ht, hb] using h

theorem keyToWatcher_none {key : CString} {token : Bytes} {domain : Option UInt32}
    {ws : List WatchEntry} (h : keyToWatcher key token domain ws = .ok none) :
    (domain, key, strHead token) ∉ ws.map WatchEntry.ident := by
  induction ws with
  | nil => exact List.not_mem_nil
  | cons iter rest ih =>
    unfold keyToWatcher at h
    rw [List.map_cons, List.mem_cons, not_or]
    split at h
    · rename_i hfit
      cases hmatch : tokenMatches token iter.token with
      | error e => simp [hmatch] at h
      | ok fits =>
        cases fits with
        | true => simp [hmatch] at h
        | false =>
          simp only [hmatch] at h
          refine ⟨fun heq => tokenMatches_false hmatch ?_, ih h⟩
          exact (congrArg (fun i => i.2.2) heq).symm
    · rename_i hfit
      refine ⟨fun heq => hfit ?_, ih h⟩
      simp only [WatchEntry.ident, Prod.mk.injEq] at heq
      simp [heq.1, heq.2.1]

section Sections
variable {r : WatchRegistry}

theorem ran_lookWatch_idents {domid : UInt32} {path : CString} {token : Bytes}
    {isRelative : Bool} :
    Ran (fun _ => True) r (lookWatch domid path token isRelative) fun found r' =>
      found = none → (some domid, path, strHead token) ∉ r'.idents := by
  refine Ran.get.bind ?_
  rintro _ _ - ⟨rfl, rfl⟩
  unfold Ran
  rw [wp_bind, wp_unref]
  refine wp_lift (fun found hfound => ?_) fun _ _ => trivial
  cases found with
  | none => exact Ran.pure fun _ => keyToWatcher_none hfound
  | some w =>
    have hw := (keyToWatcher_mem hfound).1
    have hmade : Makes (.reform w isRelative) r (r.reformed w.id isRelative) := .reform hw
    simp only [wp_bind, wp_unref, wp_modify]
    exact ⟨.one trivial hmade, fun h => by cases h⟩

theorem ran_createWatch_idents {domid : UInt32} {path : CString} {token : Bytes}
    {isRelative : Bool} :
    Ran (fun _ => True) r (createWatch domid path token isRelative) fun _ r' =>
      r'.idents = r.idents ∨ r'.idents = r.idents ++ [(some domid, path, strHead token)] := by
  refine (Ran.calm trivial (calm_alloc _)).bind fun _ r₁ _ ⟨h₁, _⟩ => ?_
  refine .ite (fun _ => .pure (Or.inl h₁.idents)) fun _ => ?_
  refine (Ran.calm trivial (calm_alloc _)).bind fun _ r₂ _ ⟨h₂, _⟩ => ?_
  refine .ite (fun _ => .pure (Or.inl (h₂.idents.trans h₁.idents))) fun _ => ?_
  refine (Ran.calm trivial (calm_alloc _)).bind fun _ r₃ _ ⟨h₃, _⟩ => ?_
  have hsame : r₃.idents = r.idents := h₃.idents.trans (h₂.idents.trans h₁.idents)
  refine .ite (fun _ => .pure (Or.inl hsame)) fun _ => ?_
  unfold insertWatch
  simp only [bind_assoc, pure_bind]
  refine Ran.get.bind ?_
  rintro _ _ - ⟨rfl, rfl⟩
  refine (ran_addWatch trivial rfl rfl).bind ?_
  rintro _ _ - rfl
  refine .pure (Or.inr ?_)
  rw [idents_link rfl, hsame]
  rfl

theorem ran_lookLocal_idents {key token : CString} {deadline : Deadline} :
    Ran (fun _ => True) r (lookLocalDeadline key token deadline) fun rc r' =>
      r'.idents = r.idents ∧ (rc = none → (none, key, strHead (strBytes token)) ∉ r.idents) := by
  refine (Ran.calm trivial (calm_lock deadline)).bind fun rc r₁ _ ⟨h₁, _⟩ => ?_
  cases rc with
  | some e => exact .pure ⟨h₁.idents, fun h => by cases h⟩
  | none =>
    refine Ran.get.bind ?_
    rintro _ _ - ⟨rfl, rfl⟩
    unfold Ran
    rw [wp_bind, wp_unref]
    refine wp_lift (fun found hfound => ?_) fun _ _ => trivial
    cases found with
    | none =>
      refine Ran.pure ⟨h₁.idents, fun _ => ?_⟩
      rw [← h₁.idents]
      exact keyToWatcher_none hfound
    | some w => exact Ran.pure ⟨h₁.idents, fun h => by cases h⟩

theorem ran_insertLocal_idents {path key token : CString} {isRelative fire : Bool} :
    Ran (fun _ => True) r (insertLocal path key token isRelative fire) fun _ r' =>
      r'.idents = r.idents ++ [(none, key, strHead (strBytes token))] := by
  refine Ran.get.bind ?_
  rintro _ _ - ⟨rfl, rfl⟩
  refine (ran_addWatch trivial rfl rfl).bind ?_
  rintro _ _ - rfl
  have hlinked := @idents_link r (newLocalWatch r.shared key token isRelative) rfl
  refine .ite (fun _ => ?_) fun _ => .pure hlinked
  have hevent := @ran_queueLocal Change.Scans _ [] (newLocalWatch r.shared key token isRelative)
    path trivial trivial (fun _ h => (List.not_mem_nil h).elim) (linkedAs_link (r := r) rfl).known
  refine Ran.bind (hevent.scans_idents.allow fun _ _ => trivial) fun _ _ _ h => .pure ?_
  rw [h, hlinked]
  rfl

theorem ran_createLocal_idents {path key token : CString} {isRelative fire : Bool}
    {deadline : Deadline} :
    Ran (fun _ => True) r (createLocal path key token isRelative fire deadline) fun _ r' =>
      r'.idents = r.idents ∨ (none, key, strHead (strBytes token)) ∉ r.idents ∧
        r'.idents = r.idents ++ [(none, key, strHead (strBytes token))] := by
  refine (Ran.calm trivial (calm_alloc _)).bind fun _ r₁ _ ⟨h₁, _⟩ => ?_
  refine .ite (fun _ => .pure (Or.inl h₁.idents)) fun _ => ?_
  refine (Ran.calm trivial (calm_alloc _)).bind fun _ r₂ _ ⟨h₂, _⟩ => ?_
  have hsame : r₂.idents = r.idents := h₂.idents.trans h₁.idents
  refine .ite (fun _ => .pure (Or.inl hsame)) fun _ => ?_
  refine (Ran.calm trivial (calm_lock deadline)).bind fun rc r₃ _ ⟨h₃, _⟩ => ?_
  replace hsame := h₃.idents.trans hsame
  cases rc with
  | some e => exact .pure (Or.inl hsame)
  | none =>
    refine ran_lookLocal_idents.bind fun rc r₄ _ ⟨h₄, hnew⟩ => ?_
    rw [hsame] at h₄ hnew
    cases rc with
    | some e => exact .pure (Or.inl h₄)
    | none =>
      refine ran_insertLocal_idents.bind fun _ r₅ _ h₅ => .pure (Or.inr ⟨hnew rfl, ?_⟩)
      rw [h₅, h₄]

theorem wp_queuePendingRef_told {watch : WatchEntry} {domid : UInt32} {path : CString}
    {deadline : Deadline} :
    wp (queuePendingRef watch domid path deadline)
      (fun _ r' => r'.told = r.told ∨ r'.told = r.told ++ [watch.id]) (fun _ => True) r := by
  unfold queuePendingRef sysRefGet watchEntryPut
  simp only [wp_bind, wp_unref]
  refine wp_conseq (wp_trivial _ _) fun _ _ _ => wp_ite (fun _ => Or.inl rfl) fun _ => ?_
  simp only [wp_bind, wp_unref]
  refine wp_conseq (wp_trivial _ _) fun _ _ _ => wp_ite (fun _ => Or.inl rfl) fun _ => ?_
  simp only [wp_bind, wp_modify, wp_unref]
  refine wp_conseq (wp_trivial _ _) fun rc _ _ => ?_
  cases rc with
  | some e => exact Or.inl rfl
  | none => exact Or.inr rfl

theorem wp_queueLocalRef_told {localEvents : List Nat} {entry : WatchEntry} {path : CString} :
    wp (queueLocalRef localEvents entry path)
      (fun _ r' => r'.told = r.told ∨ r'.told = r.told ++ [entry.id]) (fun _ => True) r := by
  unfold queueLocalRef sysRefGet
  refine wp_ite (fun _ => Or.inl rfl) fun _ => ?_
  simp only [wp_bind, wp_unref]
  refine wp_conseq (wp_trivial _ _) fun _ _ _ => wp_ite (fun _ => Or.inl rfl) fun _ => ?_
  simp only [wp_bind, wp_modify]
  exact wp_ite (fun _ => trivial) fun _ => Or.inr rfl

theorem wp_queueWatchRound_told {path : CString} {recursiveRemove : Bool} {deadline : Deadline}
    {iter : WatchEntry} {localEvents : List Nat} :
    wp (queueWatchRound path recursiveRemove deadline iter localEvents)
      (fun _ r' => r'.told = r.told ∨ r'.told = r.told ++ [iter.id]) (fun _ => True) r := by
  unfold queueWatchRound
  cases watchEventPath iter path recursiveRemove with
  | none => exact Or.inl rfl
  | some eventPath =>
    simp only [wp_bind, wp_get, wp_unref]
    refine wp_conseq (wp_trivial _ _) fun entry _ _ => ?_
    cases entry with
    | none => exact Or.inl rfl
    | some entry =>
      cases iter.domain with
      | none =>
        refine wp_ite (fun _ => trivial) fun _ => ?_
        rw [wp_bind]
        exact wp_conseq wp_queueLocalRef_told fun _ _ h => h
      | some domid =>
        rw [wp_bind]
        refine wp_conseq wp_queuePendingRef_told fun rc _ h => ?_
        cases rc with
        | none => exact h
        | some e => cases e <;> exact h

def scanLeft : Option Scan → List WatchEntry
  | some scan => scan.rest
  | none => []

/-- A round tells the watch it is about or none, and does not come back to it. -/
theorem wp_scanRound_told {scan : Scan} :
    wp (scanRound scan)
      (fun a r' => ∃ ws : List WatchEntry, r'.told = r.told ++ ws.map WatchEntry.id ∧
        (ws ++ scanLeft a.1).Sublist scan.rest) (fun _ => True) r := by
  unfold scanRound
  cases hrest : scan.rest with
  | nil =>
    simp only [wp_bind, wp_unref]
    exact wp_conseq (wp_trivial _ _) fun _ _ _ => ⟨[], by simp [scanLeft]⟩
  | cons iter rest =>
    rw [wp_bind]
    refine wp_conseq wp_queueWatchRound_told fun outcome r₁ h => ?_
    -- the watch of the round is the only one that can have been told
    have hws : ∃ ws : List WatchEntry, r₁.told = r.told ++ ws.map WatchEntry.id ∧
        ws.Sublist [iter] := by
      rcases h with h | h
      · exact ⟨[], by simp [h], List.nil_sublist _⟩
      · exact ⟨[iter], by simp [h], .refl _⟩
    obtain ⟨ws, htold, hsub⟩ := hws
    cases outcome with
    | next events => exact ⟨ws, htold, hsub.append (.refl rest)⟩
    | stop rc events =>
      simp only [wp_bind, wp_unref]
      refine wp_conseq (wp_trivial _ _) fun _ _ _ => ⟨ws, htold, ?_⟩
      exact hsub.append (List.nil_sublist rest)

end Sections

/-- The steps with which a change of the store begins to go over the watches. -/
def WatchAction.Announces : WatchAction → Prop
  | .notify _ _ | .remove _ _ _ => True
  | _ => False

namespace WatchServer

section Steps
variable {s s' : WatchServer} {a : WatchAction} {domid : UInt32} {path : CString} {token : Bytes}
  {isRelative : Bool} {began : Nat}

theorem looked_enterLocked {α : Type} {x : RefM α} {k : α → WatchServer}
    (hs : s.enterLocked x k = some s') (hk : ∀ b, ∃ pc, k b = s.setGuest domid pc ∧
      pc ≠ .looked path token isRelative began) :
    s'.guest domid ≠ .looked path token isRelative began := by
  obtain ⟨-, b, r, -, rfl⟩ := enterLocked_wp (wp_trivial x s.registry) hs
  obtain ⟨pc, hkb, hpc⟩ := hk b
  simp only [hkb, setGuest, Function.update_self]
  exact hpc

theorem looked_before (hs : s.step a = some s')
    (h : s'.guest domid = .looked path token isRelative began)
    (hlook : ∀ path token isRelative, a ≠ .look domid path token isRelative) :
    s.guest domid = .looked path token isRelative began := by
  by_cases hthread : a.thread = some domid
  · cases a with
    | look d p t r =>
      cases hthread
      exact absurd rfl (hlook p t r)
    | insert d =>
      cases hthread
      simp only [step, stepInsert] at hs
      split at hs
      · refine absurd h (looked_enterLocked hs fun b => ?_)
        cases b <;> exact ⟨_, rfl, fun h => by cases h⟩
      · cases hs
    | initial d =>
      cases hthread
      simp only [step, stepInitial] at hs
      split at hs
      · exact absurd h (looked_enterLocked hs fun b => ⟨_, rfl, fun h => by cases h⟩)
      · cases hs
    | unwatch d p t =>
      cases hthread
      simp only [step] at hs
      split at hs
      · cases hs
      · exact absurd h (looked_enterLocked hs fun b => ⟨_, rfl, fun h => by cases h⟩)
    | cleanupWatches d =>
      cases hthread
      simp only [step] at hs
      split at hs
      · cases hs
      · exact absurd h (looked_enterLocked hs fun b => ⟨_, rfl, fun h => by cases h⟩)
    | cleanupEvents d =>
      cases hthread
      simp only [step, stepCleanupEvents] at hs
      split at hs
      · obtain ⟨b, r, -, rfl⟩ := enter_wp (wp_trivial _ s.registry) hs
        simp [setGuest] at h
      · cases hs
    | process d =>
      simp only [step] at hs
      split at hs
      · cases hs
      · obtain ⟨-, b, r, -, rfl⟩ := enterLocked_wp (wp_trivial _ s.registry) hs
        exact h
    | client d x =>
      simp only [step] at hs
      split at hs
      · cases hs
        exact h
      · cases hs
    | notify _ _ | remove _ _ _ | round | callback | callbackReturned | write _ _ _ _ _ | store _
    | localCheck _ _ _ _ | localLook _ | localInsert _ | localUnwatch _ _ _ => cases hthread
  · rw [← (framed_step hs).guest domid hthread]
    exact h

/-- The list, and what a guest that is about to link a watch relies on. -/
structure Distinct (s : WatchServer) : Prop where
  inv : s.Inv
  nodup : s.registry.idents.Nodup
  looked : ∀ domid path token isRelative began,
    s.guest domid = .looked path token isRelative began →
      (some domid, path, strHead token) ∉ s.registry.idents

theorem Start.distinct (h : s.Start) : s.Distinct where
  inv := h.inv
  nodup := by
    unfold WatchRegistry.idents linkedWatches
    rw [h.watches]
    exact List.nodup_nil
  looked := fun domid _ _ _ _ hpc => by
    rw [h.guest domid] at hpc
    cases hpc

theorem Distinct.unlinks (h : s.Distinct) (hs : s.step a = some s')
    (hinsert : ∀ w, ¬ a.Allows (.insert w))
    (hlook : ∀ domid path token isRelative, a ≠ .look domid path token isRelative) :
    s'.Distinct := by
  obtain ⟨hdoes, hinv, -⟩ := steps h.inv hs
  have hsub := hdoes.idents hinsert
  refine ⟨hinv, h.nodup.sublist hsub, fun domid path token isRelative began hpc hmem => ?_⟩
  have hpc' := looked_before hs hpc (hlook domid)
  exact h.looked domid path token isRelative began hpc' (hsub.subset hmem)

theorem distinct_look (h : s.Distinct)
    (hs : s.step (.look domid path token isRelative) = some s') : s'.Distinct := by
  obtain ⟨hdoes, hinv, -⟩ := steps h.inv hs
  have hsub := hdoes.idents fun w hw => hw
  refine ⟨hinv, h.nodup.sublist hsub, fun domid' path' token' isRelative' began' hpc hmem => ?_⟩
  by_cases hd : domid' = domid
  · subst hd
    simp only [step, stepLook] at hs
    split at hs
    · cases hs
    · obtain ⟨-, found, r, -, hnew, rfl⟩ := enterLocked_ran ran_lookWatch_idents hs
      cases found with
      | some w => simp [setGuest] at hpc
      | none =>
        simp only [setGuest, Function.update_self, GuestPc.looked.injEq] at hpc
        obtain ⟨rfl, rfl, -, -⟩ := hpc
        exact hnew rfl hmem
  · have hpc' := looked_before hs hpc fun p t r heq => hd (by cases heq; rfl)
    exact h.looked domid' path' token' isRelative' began' hpc' (hsub.subset hmem)

theorem Distinct.links (h : s.Distinct) (hs : s.step a = some s')
    {i : Option UInt32 × CString × CString} (hnew : i ∉ s.registry.idents)
    (hlink : s'.registry.idents = s.registry.idents ++ [i])
    (hother : ∀ domid path token isRelative began,
      s'.guest domid = .looked path token isRelative began →
        s.guest domid = .looked path token isRelative began ∧ i.1 ≠ some domid) :
    s'.Distinct := by
  refine ⟨(steps h.inv hs).inv, ?_, fun domid path token isRelative began hpc hmem => ?_⟩
  · rw [hlink]
    exact List.nodup_append.mpr ⟨h.nodup, List.nodup_singleton i, fun j hj k hk heq => by
      rw [List.mem_singleton] at hk
      exact hnew (hk ▸ heq ▸ hj)⟩
  · obtain ⟨hpc', hne⟩ := hother domid path token isRelative began hpc
    rw [hlink] at hmem
    rcases List.mem_append.mp hmem with hmem | hmem
    · exact h.looked domid path token isRelative began hpc' hmem
    · exact hne (congrArg Prod.fst (List.mem_singleton.mp hmem)).symm

theorem Distinct.same (h : s.Distinct) (hs : s.step a = some s')
    (hsame : s'.registry.idents = s.registry.idents)
    (hlook : ∀ domid path token isRelative, a ≠ .look domid path token isRelative) :
    s'.Distinct := by
  refine ⟨(steps h.inv hs).inv, ?_, fun domid path token isRelative began hpc hmem => ?_⟩
  · rw [hsame]
    exact h.nodup
  · rw [hsame] at hmem
    exact h.looked domid path token isRelative began (looked_before hs hpc (hlook domid)) hmem

theorem distinct_insert (h : s.Distinct) (hs : s.step (.insert domid) = some s') :
    s'.Distinct := by
  have hrun := hs
  simp only [step, stepInsert] at hrun
  split at hrun
  · rename_i path token isRelative began hpc
    obtain ⟨-, made, r, -, hlink, rfl⟩ := enterLocked_ran ran_createWatch_idents hrun
    rcases hlink with hsame | hlink
    · exact h.same hs hsame fun _ _ _ _ heq => by cases heq
    · refine h.links hs (h.looked domid path token isRelative began hpc) hlink ?_
      intro domid' path' token' isRelative' began' hpc'
      refine ⟨looked_before hs hpc' (fun _ _ _ heq => by cases heq), fun heq => ?_⟩
      cases heq
      cases made <;> simp [setGuest] at hpc'
  · cases hrun

theorem distinct_localInsert {thread : Nat} (h : s.Distinct)
    (hs : s.step (.localInsert thread) = some s') : s'.Distinct := by
  have hrun := hs
  simp only [step, stepLocalInsert] at hrun
  split at hrun
  · obtain ⟨-, made, r, -, hlink, hs'⟩ := enterLocked_ran ran_createLocal_idents hrun
    have hreg : s'.registry = r := by rw [hs']
    rw [← hreg] at hlink
    rcases hlink with hsame | ⟨hnew, hlink⟩
    · exact h.same hs hsame fun _ _ _ _ heq => by cases heq
    · refine h.links hs hnew hlink fun domid path token isRelative began hpc => ?_
      exact ⟨looked_before hs hpc (fun _ _ _ heq => by cases heq), fun heq => by cases heq⟩
  · cases hrun

theorem distinct_step (h : s.Distinct) (hs : s.step a = some s') : s'.Distinct := by
  cases a with
  | look domid path token isRelative => exact distinct_look h hs
  | insert domid => exact distinct_insert h hs
  | localInsert thread => exact distinct_localInsert h hs
  | notify _ _ | remove _ _ _ | round | callback | callbackReturned | initial _ | unwatch _ _ _
  | cleanupWatches _ | cleanupEvents _ | process _ | client _ _ | write _ _ _ _ _ | store _
  | localCheck _ _ _ _ | localLook _ | localUnwatch _ _ _ =>
    exact h.unlinks hs (fun _ hw => hw) fun _ _ _ _ heq => by cases heq

theorem run_distinct {as : List WatchAction} (hs : s.Start) (h : run step s as = some s') :
    s'.Distinct :=
  run_keeps (fun _ _ _ hd hstep => distinct_step hd hstep) hs.distinct h

/-- What the scan of one change has done since `s`: it does not come back to the watches it has
told. -/
def ScannedFrom (s s' : WatchServer) : Prop :=
  ∃ ws : List WatchEntry, s'.registry.told = s.registry.told ++ ws.map WatchEntry.id ∧
    (ws ++ scanLeft s'.scan).Sublist (linkedWatches s.registry.shared)

theorem told_cleanupEvents (hs : s.step (.cleanupEvents domid) = some s') :
    s'.scan = s.scan ∧ s'.registry.told = s.registry.told := by
  simp only [step, stepCleanupEvents] at hs
  split at hs
  · have htake := @ran_cleanupEvents (fun c => ∃ e, c = .take e) s.registry domid
      fun e _ => ⟨e, rfl⟩
    obtain ⟨_, r, hd, _, rfl⟩ := enter_ran htake hs
    refine ⟨rfl, hd.keeps (I := fun r => r.told = s.registry.told) ?_ rfl⟩
    rintro _ r₁ r₂ ⟨e, rfl⟩ hm hr₁
    cases hm
    exact hr₁
  · cases hs

/-- While a scan is under way only its own rounds tell watches. -/
theorem told_scanning (hscan : s.scan.isSome) (hs : s.step a = some s') (ha : a ≠ .round) :
    s'.scan = s.scan ∧ s'.registry.told = s.registry.told := by
  cases a with
  | round => exact absurd rfl ha
  | cleanupEvents domid => exact told_cleanupEvents hs
  | client domid x =>
    simp only [step] at hs
    split at hs
    · cases hs
      exact ⟨rfl, rfl⟩
    · cases hs
  | callback =>
    simp only [step] at hs
    split at hs <;> simp [enterLocked, hscan] at hs
  | callbackReturned =>
    simp only [step] at hs
    split at hs <;> simp [enterLocked, hscan] at hs
  | insert domid =>
    simp only [step, stepInsert] at hs
    split at hs <;> simp [enterLocked, hscan] at hs
  | initial domid =>
    simp only [step, stepInitial] at hs
    split at hs <;> simp [enterLocked, hscan] at hs
  | localLook thread =>
    simp only [step, stepLocalLook] at hs
    split at hs <;> simp [enterLocked, hscan] at hs
  | localInsert thread =>
    simp only [step, stepLocalInsert] at hs
    split at hs <;> simp [enterLocked, hscan] at hs
  | notify _ _ | remove _ _ _ | look _ _ _ _ | unwatch _ _ _ | cleanupWatches _ | process _
  | write _ _ _ _ _ | store _ | localCheck _ _ _ _ | localUnwatch _ _ _ =>
    simp [step, stepLook, stepLocalCheck, enterLocked, hscan] at hs

theorem scannedFrom_step {t t' : WatchServer} (h : s.ScannedFrom t) (hscan : t.scan.isSome)
    (ht : t.step a = some t') : s.ScannedFrom t' := by
  obtain ⟨ws, htold, hsub⟩ := h
  by_cases ha : a = .round
  · subst ha
    obtain ⟨scan, hsome⟩ := Option.isSome_iff_exists.mp hscan
    simp only [step, hsome, stepScan] at ht
    rw [hsome] at hsub
    obtain ⟨b, r, ⟨vs, htold', hleft⟩, rfl⟩ := enter_wp wp_scanRound_told ht
    refine ⟨ws ++ vs, ?_, ?_⟩
    · rw [htold', htold, List.map_append, List.append_assoc]
    · rw [List.append_assoc]
      exact ((List.Sublist.refl ws).append hleft).trans hsub
  · obtain ⟨hkept, htold'⟩ := told_scanning hscan ht ha
    exact ⟨ws, htold'.trans htold, by rw [hkept]; exact hsub⟩

theorem told_quiet {r r' : WatchRegistry} {P : Change → Prop} (h : Does P r r')
    (hP : ∀ c, P c → c = .quiet) : r'.told = r.told := by
  refine h.keeps (I := fun r₁ => r₁.told = r.told) ?_ rfl
  intro c r₁ r₂ hc hm hr₁
  cases hP c hc
  cases hm with
  | quiet hsame => exact hsame.same.told.trans hr₁

theorem scannedFrom_begin (ha : a.Announces) (hs : s.step a = some s') :
    s'.registry.told = s.registry.told ∧ s'.ScannedFrom s' := by
  have hbegin : ∀ x : RefM (Option Scan),
      (Ran (fun c => c = .quiet) s.registry x fun b r =>
        ∀ scan ∈ b, scan.localEvents = [] ∧ scan.rest = linkedWatches r.shared) →
      s.enterLocked x (fun scan => { s with scan := scan }) = some s' →
      s'.registry.told = s.registry.told ∧ s'.ScannedFrom s' := by
    intro x hx hs
    obtain ⟨-, b, r, hd, hrest, rfl⟩ := enterLocked_ran hx hs
    refine ⟨told_quiet hd fun _ hc => hc, [], by simp, ?_⟩
    cases b with
    | none => exact List.nil_sublist _
    | some scan =>
      rw [List.nil_append]
      exact (hrest scan rfl).2 ▸ .refl _
  cases a with
  | notify path deadline => exact hbegin _ (ran_beginNotify rfl) hs
  | remove key callerId deadline => exact hbegin _ (ran_beginRemove rfl) hs
  | _ => exact ha.elim

end Steps

/-- No two watches on the list have the same domain, key and token, and what is told from the
time a change begins to go over the watches is told to different ones, as long as it has not come
to their end. -/
theorem watches_distinct {s s₁ : WatchServer} {as : List WatchAction} (hs : s.Start)
    (h : run step s as = some s₁) :
    (linkedWatches s₁.registry.shared).Pairwise (fun v w => ¬ v.SameAs w) ∧
    ∀ (a : WatchAction) (s₂ : WatchServer) (bs : List WatchAction) (s₃ : WatchServer),
      a.Announces → s₁.step a = some s₂ → run step s₂ bs = some s₃ →
      Along step (fun t _ => t.scan.isSome) s₂ bs →
      ∃ ws : List WatchEntry, s₃.registry.told = s₁.registry.told ++ ws.map WatchEntry.id ∧
        (∀ w ∈ ws, w ∈ linkedWatches s₂.registry.shared) ∧
        ws.Pairwise fun v w => ¬ v.SameAs w := by
  have hpairs : ∀ t : WatchServer, t.Distinct →
      (linkedWatches t.registry.shared).Pairwise fun v w => ¬ v.SameAs w := by
    intro t ht
    simp only [WatchEntry.sameAs_iff]
    exact List.pairwise_map.mp ht.nodup
  have hd := run_distinct hs h
  refine ⟨hpairs s₁ hd, fun a s₂ bs s₃ ha hstep hrun hscan => ?_⟩
  obtain ⟨htold, hbegin⟩ := scannedFrom_begin ha hstep
  obtain ⟨ws, hws, hsub⟩ := run_invariant (I := s₂.ScannedFrom)
    (fun _ _ _ hi hc ht => scannedFrom_step hi hc ht) hbegin hscan hrun
  have hsub' := (List.sublist_append_left ws _).trans hsub
  refine ⟨ws, hws.trans (by rw [htold]), fun w hw => hsub'.subset hw, ?_⟩
  exact (hpairs s₂ (distinct_step hd hstep)).sublist hsub'

/-- Domain 1 watches "/a" twice, and two threads of Dom0 that have both looked want to watch it. -/
def watchTwice : List WatchAction :=
  [.look 1 (ascii ['/', 'a']) [116, 0] false, .insert 1, .initial 1,
   .look 1 (ascii ['/', 'a']) [116, 0] true, .initial 1,
   .localCheck 0 (ascii ['/', 'a']) (ascii ['t']) .forever, .localLook 0,
   .localCheck 1 (ascii ['/', 'a']) (ascii ['t']) .forever, .localLook 1,
   .localInsert 0, .localInsert 1, .callback]

theorem watches_distinct_twice : ∃ s₁ s₂ s₃,
    run step (fresh ownedByOne) watchTwice = some s₁ ∧
    s₁.step (.notify (ascii ['/', 'a']) .forever) = some s₂ ∧
    run step s₂ [.round, .round, .round] = some s₃ ∧
    (linkedWatches s₁.registry.shared).length = 2 ∧
    (linkedWatches s₁.registry.shared).Pairwise (fun v w => ¬ v.SameAs w) ∧
    s₃.registry.told = [0, 0, 1, 0, 1] ∧
    ∃ ws : List WatchEntry, s₃.registry.told = s₁.registry.told ++ ws.map WatchEntry.id ∧
      ws.Pairwise fun v w => ¬ v.SameAs w := by
  have hvals : (run step (fresh ownedByOne) watchTwice).bind (fun s₁ =>
      (s₁.step (.notify (ascii ['/', 'a']) .forever)).bind fun s₂ =>
        (run step s₂ [.round, .round, .round]).map fun s₃ =>
          ((linkedWatches s₁.registry.shared).length, s₃.registry.told,
            decide (Along step (fun t _ => t.scan.isSome) s₂ [.round, .round, .round]))) =
      some (2, [0, 0, 1, 0, 1], true) := by
    decide +kernel
  obtain ⟨s₁, h₁, hs₁⟩ := Option.bind_eq_some_iff.mp hvals
  obtain ⟨s₂, h₂, hs₂⟩ := Option.bind_eq_some_iff.mp hs₁
  obtain ⟨s₃, h₃, hs₃⟩ := Option.map_eq_some_iff.mp hs₂
  simp only [Prod.mk.injEq, decide_eq_true_eq] at hs₃
  obtain ⟨hlength, htold, hscan⟩ := hs₃
  obtain ⟨hpairs, hchange⟩ := watches_distinct (fresh_start ownedByOne) h₁
  obtain ⟨ws, hws, -, hdistinct⟩ := hchange (.notify (ascii ['/', 'a']) .forever) s₂ _ s₃
    trivial h₂ h₃ hscan
  exact ⟨s₁, s₂, s₃, h₁, h₂, h₃, hlength, hpairs, htold, ws, hws, hdistinct⟩

end WatchServer

end Xenlib
