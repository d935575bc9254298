import Xenlib.Notification

/-!
Writes of the control domain. It may write everywhere, so that with memory at hand its writes go
through; the permissions they come with are given to the nodes they create, and to no others.
-/

set_option autoImplicit false

namespace Xenlib

open Keyed Wp

theorem checkPerms_zero (node : XsNode) (perms : XsPerm) : checkPerms node perms 0 = .ok true := by
  simp [checkPerms]

section Write
variable {data : Option CString} {perms : List XsPermEntry}

theorem wp_writeWalk_zero (toks : List CString) (inserted : Bool) (t : XsEntry)
    (allocs : List Bool) (hmem : false ∉ allocs) :
    wp (writeWalk data 0 perms toks inserted t)
      (fun r rest => r = (none, t.plant (freshNode perms) (updNode data) toks) ∧ false ∉ rest)
      (fun _ => False) allocs := by
  induction toks generalizing inserted t allocs with
  | nil =>
    unfold writeWalk writeValue
    cases data with
    | none => exact ⟨rfl, hmem⟩
    | some value =>
      simp only [wp_bind, checkPerms_zero, wp_lift_ok, if_true]
      refine wp_kMalloc_granted hmem fun rest hrest => ⟨rfl, hrest⟩
  | cons tok toks ih =>
    unfold writeWalk
    cases hf : t.children.find? tok with
    | some s =>
      simp only [wp_bind, wp_pure]
      refine wp_conseq (ih inserted s allocs hmem) ?_
      rintro r rest ⟨rfl, hrest⟩
      exact ⟨by rw [Tree.plant_cons_some _ _ hf], hrest⟩
    | none =>
      simp only [wp_bind, checkPerms_zero, wp_lift_ok, Bool.not_true, Bool.false_eq_true, if_false]
      refine wp_kMalloc_granted hmem fun rest₁ h₁ => ?_
      simp only [Bool.not_true, Bool.false_eq_true, if_false, wp_bind]
      refine wp_kMalloc_granted h₁ fun rest₂ h₂ => ?_
      simp only [Bool.not_true, Bool.false_eq_true, if_false, wp_bind]
      refine wp_newEntryPerms (fun rest₃ h₃ => ?_) (fun rest₃ _ hbad => absurd hbad h₂)
      simp only [wp_bind]
      refine wp_conseq (ih true _ rest₃ fun hf => h₂ (h₃.subset hf)) ?_
      rintro r rest ⟨rfl, hrest⟩
      simp only [Option.isSome_none, Bool.false_and, Bool.false_eq_true, if_false, wp_pure]
      exact ⟨by rw [Tree.plant_cons_none _ _ hf], hrest⟩

end Write

/-- The tree after a write: a path without components writes nothing. -/
def plantedRoot (path : CString) (data : Option CString) (perms : List XsPermEntry)
    (root : XsEntry) : XsEntry :=
  if tokens path = [] then root else root.plant (freshNode perms) (updNode data) (tokens path)

theorem wp_xssDoWriteDeadline_zero {path : CString} {data : Option CString}
    {perms : List XsPermEntry} {deadline : Deadline} {Q : Option Errno → Shared → Prop}
    {E : Fault → Prop} {s : Shared} (hmem : false ∉ s.allocs)
    (hout : ∀ rest, false ∉ rest → TimesOut deadline 1 s.locks → Q (some .etimedout)
      { s with allocs := rest, locks := locksAfter deadline 1 s.locks })
    (hin : ∀ rest, false ∉ rest → ¬ TimesOut deadline 1 s.locks → Q none
      { s with
        root := plantedRoot path data perms s.root, allocs := rest
        locks := locksAfter deadline 1 s.locks }) :
    wp (xssDoWriteDeadline path data 0 perms deadline) Q E s := by
  unfold xssDoWriteDeadline
  simp only [wp_bind, wp_alloc]
  refine wp_kMalloc_granted hmem fun rest hrest => ?_
  simp only [Bool.not_true, Bool.false_eq_true, if_false, wp_bind]
  refine wp_lock_cases (fun ht => hout rest hrest ht) (fun ht => ?_)
  simp only [wp_bind, wp_get, wp_alloc, wp_modify, wp_pure]
  unfold plantedRoot at hin
  unfold writeTree
  cases htok : tokens path with
  | nil =>
    have hq := hin rest hrest ht
    rw [if_pos htok] at hq
    exact hq
  | cons tok toks =>
    refine wp_mono (wp_writeWalk_zero (tok :: toks) false s.root rest hrest) ?_
      (fun _ h => h.elim)
    rintro r rest' ⟨rfl, hrest'⟩
    have hq := hin rest' hrest' ht
    rw [if_neg (by simp [htok]), htok] at hq
    exact hq

theorem plant_eq_self_iff {perms : List XsPermEntry} {value : CString} (p : List CString)
    (t : XsEntry) : t.plant (freshNode perms) (updNode (some value)) p = t ↔
      (t.lookup p).map (fun e => e.label.value) = some (some value) := by
  induction p generalizing t with
  | nil =>
    obtain ⟨⟨v, ps⟩, children⟩ := t
    simp [Tree.plant, updNode, eq_comm]
  | cons k ks ih =>
    rw [Tree.lookup_cons]
    cases hf : t.children.find? k with
    | some s =>
      rw [Tree.plant_cons_some _ _ hf, Option.bind_some, ← ih s]
      constructor
      · intro h
        have hset := Forest.find?_set_self
          (t := s.plant (freshNode perms) (updNode (some value)) ks) hf
        rw [show t.children.set k _ = t.children from congrArg Tree.children h, hf] at hset
        exact (Option.some.inj hset).symm
      · intro h
        rw [h, Forest.set_find? hf]
    | none =>
      rw [Tree.plant_cons_none _ _ hf, Option.bind_none]
      constructor
      · intro h
        have happ := Forest.find?_append_self
          (t := Tree.plant (freshNode perms) (updNode (some value)) ks
            ⟨freshNode perms t.label, .nil⟩) hf
        rw [show t.children.append k _ = t.children from congrArg Tree.children h, hf] at happ
        cases happ
      · intro h
        cases h

theorem lookup_plant_self {perms : List XsPermEntry} {upd : XsNode → XsNode} (p : List CString)
    (t : XsEntry) : ∃ e, (t.plant (freshNode perms) upd p).lookup p = some e ∧
      e.label = upd (writeTarget perms p t) := by
  induction p generalizing t with
  | nil => exact ⟨_, rfl, rfl⟩
  | cons k ks ih =>
    cases hf : t.children.find? k with
    | some s =>
      obtain ⟨e, he, hlabel⟩ := ih s
      refine ⟨e, ?_, ?_⟩
      · rw [Tree.plant_cons_some _ _ hf, Tree.lookup_cons, Forest.find?_set_self hf]
        exact he
      · simpa [writeTarget, Tree.lookup_cons, Tree.anchor, hf] using hlabel
    | none =>
      obtain ⟨e, he, hlabel⟩ := ih ⟨freshNode perms t.label, .nil⟩
      refine ⟨e, ?_, ?_⟩
      · rw [Tree.plant_cons_none _ _ hf, Tree.lookup_cons, Forest.find?_append_self hf]
        exact he
      · cases ks with
        | nil => simpa [writeTarget, Tree.lookup_cons, Tree.anchor, hf] using hlabel
        | cons j ks =>
          simpa [writeTarget, Tree.lookup_cons, Tree.anchor, hf, Forest.find?, freshNode_idem]
            using hlabel

inductive GuestWrite where
  | domainRw (domid : UInt32)
  | domainRo (domid : UInt32)
  | withPermissions (domid1 domid2 : UInt32)

def GuestWrite.run (path value : Option CString) : GuestWrite → SrvM (Option Errno)
  | .domainRw domid => xssWriteGuestDomainRw path value domid
  | .domainRo domid => xssWriteGuestDomainRo path value domid
  | .withPermissions domid1 domid2 => xssWriteGuestWithPermissions path value domid1 domid2

/-- The permissions the call is for, with the domain ids it is given. The first entry names the
owner, who may read and write. -/
def GuestWrite.documented : GuestWrite → List (Nat × XsPerm)
  | .domainRw domid => [(domid.toNat, .none)]
  | .domainRo domid => if domid = 0 then [(0, .none)] else [(0, .none), (domid.toNat, .read)]
  | .withPermissions domid1 domid2 => [(domid1.toNat, .none), (domid2.toNat, .read)]

/-- The permissions the call passes on, with domain ids of 16 bits. -/
def GuestWrite.perms : GuestWrite → List XsPermEntry
  | .domainRw domid => [⟨domid.toUInt16, .none⟩]
  | .domainRo domid => if domid = 0 then [⟨0, .none⟩] else [⟨0, .none⟩, ⟨domid.toUInt16, .read⟩]
  | .withPermissions domid1 domid2 => [⟨domid1.toUInt16, .none⟩, ⟨domid2.toUInt16, .read⟩]

def listed (perms : List XsPermEntry) : List (Nat × XsPerm) :=
  perms.map fun p => (p.domid.toNat, p.perm)

def GuestWrite.Fits (c : GuestWrite) : Prop := ∀ p ∈ c.documented, p.1 < 65536

/-- The call returns 0, and the node has the value and the documented permissions. -/
def GuestWrite.Sets (c : GuestWrite) (path value : CString) (s : Shared) : Prop :=
  ∃ s' e, c.run (some path) (some value) s = .ok (none, s') ∧
    s'.root.lookup (tokens path) = some e ∧ e.label.value = some value ∧
    listed e.label.perms = c.documented

theorem listed_lt (perms : List XsPermEntry) : ∀ p ∈ listed perms, p.1 < 65536 := by
  intro p hp
  obtain ⟨q, -, rfl⟩ := List.mem_map.mp hp
  exact q.domid.toNat_lt

theorem GuestWrite.listed_perms {c : GuestWrite} (h : c.Fits) : listed c.perms = c.documented := by
  cases c with
  | domainRw domid => simp_all [Fits, documented, listed, perms]
  | domainRo domid =>
    by_cases hz : domid = 0
    · simp [documented, listed, perms, hz]
    · simp_all [Fits, documented, listed, perms]
  | withPermissions domid1 domid2 =>
    simp_all [Fits, documented, listed, perms]

theorem GuestWrite.run_eq (c : GuestWrite) (path value : Option CString) :
    c.run path value = xssWriteWith path value c.perms := by
  cases c <;> rfl

theorem GuestWrite.perms_ne_nil (c : GuestWrite) : c.perms ≠ [] := by
  cases c with
  | domainRo domid => by_cases hz : domid = 0 <;> simp [perms, hz]
  | domainRw | withPermissions => simp [perms]

theorem wp_xssWriteWith_zero {path value : CString} {perms : List XsPermEntry} {s : Shared}
    (hmem : false ∉ s.allocs) :
    wp (xssWriteWith (some path) (some value) perms)
      (fun rc s' => rc = none ∧ s'.root = plantedRoot path (some value) perms s.root)
      (fun _ => ¬ (PermsOk s.root ∧ ∀ w ∈ linkedWatches s, LocalOk w)) s := by
  have hpatient : ∀ {n locks}, ¬ TimesOut .forever n locks := fun h => by cases h.1
  unfold xssWriteWith
  simp only [wp_bind]
  refine wp_xssDoWriteDeadline_zero hmem (fun _ _ hout => absurd hout hpatient)
    fun rest hrest _ => ?_
  unfold notifyWatchers
  simp only [wp_bind, wp_pure]
  refine wp_mono (wp_notifyWatchersDeadline_end hrest) (fun _ s' h => ⟨trivial, h.root⟩) ?_
  rintro _ hbad ⟨hok, hreg⟩
  refine hbad ⟨?_, hreg⟩
  unfold plantedRoot
  split
  · exact hok
  · exact hok.plant _ _ _

section Sets
variable {c : GuestWrite} {path value : CString} {s : Shared}

theorem GuestWrite.ends (hmem : false ∉ s.allocs) (hok : PermsOk s.root)
    (hreg : ∀ w ∈ linkedWatches s, LocalOk w) (ht : tokens path ≠ []) :
    ∃ s' e, c.run (some path) (some value) s = .ok (none, s') ∧
      s'.root.lookup (tokens path) = some e ∧ e.label.value = some value ∧
      e.label.perms = (writeTarget c.perms (tokens path) s.root).perms := by
  have htotal : wp (c.run (some path) (some value))
      (fun rc s' => rc = none ∧ s'.root = plantedRoot path (some value) c.perms s.root)
      (fun _ => False) s := by
    rw [c.run_eq]
    exact wp_mono (wp_xssWriteWith_zero hmem) (fun _ _ h => h) fun _ hbad => hbad ⟨hok, hreg⟩
  obtain ⟨rc, s', hrun, rfl, hroot⟩ := wp_total htotal
  obtain ⟨e, he, hlabel⟩ := @lookup_plant_self c.perms (updNode (some value)) (tokens path) s.root
  refine ⟨s', e, hrun, ?_, ?_, ?_⟩
  · rw [hroot, plantedRoot, if_neg ht]
    exact he
  · rw [hlabel]
    rfl
  · rw [hlabel, updNode_perms]

theorem GuestWrite.target_perms : (writeTarget c.perms (tokens path) s.root).perms =
    ((s.root.lookup (tokens path)).map fun e => e.label.perms).getD c.perms := by
  unfold writeTarget
  cases s.root.lookup (tokens path) with
  | some e => rfl
  | none => simp [freshNode, c.perms_ne_nil]

theorem GuestWrite.sets_of (hmem : false ∉ s.allocs) (hok : PermsOk s.root)
    (hreg : ∀ w ∈ linkedWatches s, LocalOk w) (ht : tokens path ≠ []) (hfits : c.Fits)
    (hsame : ∀ e, s.root.lookup (tokens path) = some e → listed e.label.perms = c.documented) :
    c.Sets path value s := by
  obtain ⟨s', e, hrun, he, hvalue, hperms⟩ := c.ends hmem hok hreg ht
  refine ⟨s', e, hrun, he, hvalue, ?_⟩
  rw [hperms, target_perms]
  cases hl : s.root.lookup (tokens path) with
  | none => exact c.listed_perms hfits
  | some e' => exact hsame e' hl

theorem GuestWrite.of_sets (hmem : false ∉ s.allocs) (hok : PermsOk s.root)
    (hreg : ∀ w ∈ linkedWatches s, LocalOk w) (ht : tokens path ≠ []) (h : c.Sets path value s) :
    c.Fits ∧ ∀ e, s.root.lookup (tokens path) = some e → listed e.label.perms = c.documented := by
  obtain ⟨s', e, hrun, he, -, hlisted⟩ := h
  obtain ⟨s'', e', hrun', he', -, hperms⟩ := @GuestWrite.ends c path value s hmem hok hreg ht
  cases hrun.symm.trans hrun'
  cases he.symm.trans he'
  refine ⟨fun p hp => ?_, fun e₀ he₀ => ?_⟩
  · rw [← hlisted] at hp
    exact listed_lt _ p hp
  · rw [hperms, target_perms, he₀] at hlisted
    exact hlisted

end Sets

/-- A write with permissions sets them exactly when the domain ids fit and the node is new or
has these permissions already. -/
theorem guestWrite_sets_iff (c : GuestWrite) (path value : CString) (s : Shared)
    (hmem : false ∉ s.allocs) (hwf : WellFormed s.root) (hreg : ∀ w ∈ linkedWatches s, LocalOk w)
    (hp : Normalized path) (hne : path ≠ [slash]) :
    c.Sets path value s ↔ c.Fits ∧
      ∀ e, s.root.lookup (tokens path) = some e → listed e.label.perms = c.documented := by
  have ht := (hp.tokens_ne_nil hne).1
  constructor
  · exact GuestWrite.of_sets hmem hwf.permsOk hreg ht
  · exact fun h => GuestWrite.sets_of hmem hwf.permsOk hreg ht h.1 h.2

theorem ownedByOne_noWatches : ∀ w ∈ linkedWatches ownedByOne, LocalOk w := by
  intro w hw
  cases hw

/-- "/a" exists and belongs to domain 1: written for domain 2, it keeps its permissions. -/
theorem guestWrite_keeps_perms :
    ¬ ∀ (c : GuestWrite) (path value : CString) (s : Shared), false ∉ s.allocs →
      WellFormed s.root → (∀ w ∈ linkedWatches s, LocalOk w) → Normalized path →
      path ≠ [slash] → c.Sets path value s := by
  intro h
  have hset := h (.domainRo 2) (ascii ['/', 'a']) (ascii ['x']) ownedByOne (by decide)
    ownedByOne_wellFormed ownedByOne_noWatches ⟨ascii ['/', 'a'], 0, by decide⟩ (by decide)
  obtain ⟨-, hsame⟩ := GuestWrite.of_sets (by decide) ownedByOne_wellFormed.permsOk
    ownedByOne_noWatches (by decide) hset
  have hlisted := hsame _ rfl
  exact absurd hlisted (by decide)

theorem guestWrite_sets_new :
    (GuestWrite.domainRo 2).Sets (ascii ['/', 'b']) (ascii ['x']) ownedByOne := by
  refine (guestWrite_sets_iff (.domainRo 2) (ascii ['/', 'b']) (ascii ['x']) ownedByOne (by decide)
    ownedByOne_wellFormed ownedByOne_noWatches ⟨ascii ['/', 'b'], 0, by decide⟩ (by decide)).mpr
    ⟨?_, fun e he => ?_⟩
  · unfold GuestWrite.Fits
    decide
  · cases he

end Xenlib
