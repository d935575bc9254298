import Xenlib.Lib.ForestPrune
import Xenlib.ServerSpec

/-!
What `remove_ref_entries` leaves of the store when a domain is stopped.
-/

set_option autoImplicit false

namespace Xenlib

open Keyed Wp

/-- The recursion prunes the nodes the domain owns and strips its entries from the others. -/
theorem removeRefEntriesRecursive_prune (domid : UInt32) {K : CString → Prop} {f : EntryList}
    (h : f.All fun k n => K k ∧ n.perms ≠ []) :
    removeRefEntriesRecursive domid f =
      .ok (f.prune (fun n => isOwner n domid) (stripPerms domid)) := by
  induction f with
  | nil => rfl
  | cons key node children next ihc ihn =>
    obtain ⟨hnode, hc, hn⟩ := h
    obtain ⟨owner, ps, hp⟩ := List.exists_cons_of_ne_nil hnode.2
    by_cases ho : owner.domid.toUInt32 = domid
    · have howner : isOwner node domid = true := by simp [isOwner, hp, ho]
      simp [removeRefEntriesRecursive, hp, ho, ihn hn, Forest.prune, howner]
    · have howner : isOwner node domid = false := by simp [isOwner, hp, ho]
      simp [removeRefEntriesRecursive, hp, ho, ihc hc, ihn hn, Forest.prune, howner]

theorem stripPerms_ne_nil {domid : UInt32} {node : XsNode} (hne : node.perms ≠ [])
    (howner : isOwner node domid = false) : (stripPerms domid node).perms ≠ [] := by
  obtain ⟨owner, ps, hp⟩ := List.exists_cons_of_ne_nil hne
  have ho : owner.domid.toUInt32 ≠ domid := by simpa [isOwner, hp] using howner
  simp [stripPerms, hp, ho]

section Pruned
variable {domid : UInt32} {root : XsEntry}

/-- The tree after the domain has gone. The permissions of the root are not looked at. -/
def departedRoot (domid : UInt32) (root : XsEntry) : XsEntry :=
  { root with children := root.children.prune (fun n => isOwner n domid) (stripPerms domid) }

theorem departedRoot_lookup {p : List CString} (hp : p ≠ []) (hd : root.children.Distinct)
    {e' : XsEntry} :
    (departedRoot domid root).lookup p = some e' ↔
      ∃ e, root.lookup p = some e ∧
        e' = e.prune (fun n => isOwner n domid) (stripPerms domid) ∧
        root.Kept (fun n => isOwner n domid) p := by
  rw [← Tree.lookup_prune p hd]
  cases p with
  | nil => exact absurd rfl hp
  | cons k ks =>
    rw [Tree.lookup_cons, Tree.lookup_cons]
    rfl

/-- The children of a node that stays are its old children that stay, in their order. -/
theorem departedRoot_keys {p : List CString} (hd : root.children.Distinct) {e e' : XsEntry}
    (he : root.lookup p = some e) (he' : (departedRoot domid root).lookup p = some e') :
    e'.children.keys =
      e.children.keys.filter fun k => ((departedRoot domid root).lookup (p ++ [k])).isSome := by
  have hchildren : e'.children =
      e.children.prune (fun n => isOwner n domid) (stripPerms domid) := by
    cases p with
    | nil =>
      cases he
      cases he'
      rfl
    | cons k ks =>
      obtain ⟨e₀, he₀, rfl, -⟩ := (departedRoot_lookup (by simp) hd).mp he'
      rw [he] at he₀
      cases he₀
      rfl
  rw [hchildren, Forest.keys_prune (Tree.distinct_lookup hd he)]
  refine List.filter_congr fun k _ => ?_
  rw [Tree.lookup_append, he', Option.bind_some, Tree.lookup_cons, hchildren]
  cases (e.children.prune (fun n => isOwner n domid) (stripPerms domid)).find? k <;> rfl

def Stranger (domid : UInt32) (t : XsEntry) : Prop :=
  t.children.All fun _ n => ∀ p ∈ n.perms, p.domid.toUInt32 ≠ domid

theorem stripPerms_eq_iff {n : XsNode} :
    stripPerms domid n = n ↔ ∀ p ∈ n.perms, p.domid.toUInt32 ≠ domid := by
  constructor
  · intro h p hp
    have hperms : (n.perms.filter fun p => p.domid.toUInt32 ≠ domid) = n.perms :=
      congrArg XsNode.perms h
    rw [← hperms] at hp
    simpa using (List.mem_filter.mp hp).2
  · intro h
    have hperms : (n.perms.filter fun p => p.domid.toUInt32 ≠ domid) = n.perms :=
      List.filter_eq_self.mpr fun p hp => by simpa using h p hp
    rw [stripPerms, hperms]

/-- The departure changes nothing exactly when there is nothing to drop. -/
theorem departedRoot_eq_iff {t : XsEntry} :
    departedRoot domid t = t ↔ Stranger domid t := by
  have hroot : departedRoot domid t = t ↔
      t.children.prune (fun n => isOwner n domid) (stripPerms domid) = t.children := by
    constructor
    · intro h
      exact congrArg Tree.children h
    · intro h
      rw [departedRoot, h]
  rw [hroot, Forest.prune_eq_self_iff]
  constructor
  · intro h
    exact h.imp fun k n hn => stripPerms_eq_iff.mp hn.2
  · intro h
    refine h.imp fun k n hn => ⟨?_, stripPerms_eq_iff.mpr hn⟩
    rw [isOwner]
    cases hp : n.perms with
    | nil => rfl
    | cons p ps =>
      have hne := hn p (by rw [hp]; exact List.mem_cons_self)
      simpa using hne

end Pruned

/-- `remove_ref_entries` takes away the nodes below the root that the domain owns, with all that
is below them, and its entries in the permission lists of the others, and nothing else. -/
theorem removeRefEntries_exact (domid : UInt32) (s : Shared) (h : WellFormed s.root) :
    ∃ s', removeRefEntries domid s = .ok ((), s') ∧ s'.root.label = s.root.label ∧
      (∀ p, p ≠ [] → ((s'.root.lookup p).isSome ↔ (s.root.lookup p).isSome ∧
        ∀ q e, q ≠ [] → q <+: p → s.root.lookup q = some e → isOwner e.label domid = false)) ∧
      (∀ p e', p ≠ [] → s'.root.lookup p = some e' → ∃ e, s.root.lookup p = some e ∧
        e'.label.value = e.label.value ∧
        e'.label.perms = e.label.perms.filter (fun q => q.domid.toUInt32 ≠ domid) ∧
        e'.label.perms ≠ [] ∧ ∀ q ∈ e'.label.perms, q.domid.toUInt32 ≠ domid) ∧
      (∀ p e e', s.root.lookup p = some e → s'.root.lookup p = some e' →
        e'.children.keys =
          e.children.keys.filter fun k => (s'.root.lookup (p ++ [k])).isSome) := by
  have hrun : wp (removeRefEntries domid)
      (fun _ s' => s' = { s with root := departedRoot domid s.root }) (fun _ => False) s := by
    unfold removeRefEntries
    simp only [wp_bind, wp_get]
    rw [removeRefEntriesRecursive_prune domid h.nodes]
    rfl
  obtain ⟨_, s', hrun, rfl⟩ := wp_total hrun
  refine ⟨_, hrun, rfl, fun p hp => ?_, fun p e' hp he' => ?_,
    fun p e e' he he' => departedRoot_keys h.distinct he he'⟩
  · constructor
    · intro hsome
      obtain ⟨e', he'⟩ := Option.isSome_iff_exists.mp hsome
      obtain ⟨e, he, -, hkept⟩ := (departedRoot_lookup hp h.distinct).mp he'
      exact ⟨by rw [he]; rfl, hkept⟩
    · rintro ⟨hsome, hkept⟩
      obtain ⟨e, he⟩ := Option.isSome_iff_exists.mp hsome
      have hfound := (departedRoot_lookup hp h.distinct).mpr ⟨e, he, rfl, hkept⟩
      exact Option.isSome_iff_exists.mpr ⟨_, hfound⟩
  · obtain ⟨e, he, rfl, hkept⟩ := (departedRoot_lookup hp h.distinct).mp he'
    have howner := hkept p e hp List.prefix_rfl he
    have hne : e.label.perms ≠ [] := (h.permsOk.lookup he).1
    refine ⟨e, he, rfl, rfl, stripPerms_ne_nil hne howner, fun q hq => ?_⟩
    simpa using (List.mem_filter.mp hq).2

/-- Domain 1 owns "/a" and may read "/b", which is of Dom0 like "/b/c" below it. -/
def sharedByTwo : Shared :=
  { Shared.boot 4 with
    root := ⟨⟨none, [⟨0, .none⟩]⟩,
      .cons (ascii ['a']) ⟨none, [⟨1, .none⟩]⟩ .nil
        (.cons (ascii ['b']) ⟨none, [⟨0, .none⟩, ⟨1, .read⟩, ⟨2, .read⟩]⟩
          (.cons (ascii ['c']) ⟨none, [⟨0, .none⟩]⟩ .nil .nil) .nil)⟩ }

theorem sharedByTwo_wellFormed : WellFormed sharedByTwo.root :=
  ⟨by decide, by decide, by decide⟩

/-- Domain 1 goes: the node it owns is removed, and its access to the other one. -/
theorem removeRefEntries_exact_one : ∃ s' e', removeRefEntries 1 sharedByTwo = .ok ((), s') ∧
    (s'.root.lookup [ascii ['a']]).isSome = false ∧
    (s'.root.lookup [ascii ['b'], ascii ['c']]).isSome ∧
    s'.root.lookup [ascii ['b']] = some e' ∧
    e'.label.perms = [⟨0, .none⟩, ⟨2, .read⟩] ∧ e'.children.keys = [ascii ['c']] := by
  obtain ⟨s', hrun, -, hstay, hstrip, hkeys⟩ :=
    removeRefEntries_exact 1 sharedByTwo sharedByTwo_wellFormed
  have hgone : (s'.root.lookup [ascii ['a']]).isSome = false := by
    by_contra hsome
    have hthere := (hstay [ascii ['a']] (by simp)).mp
      (by simpa [Option.isSome_iff_ne_none] using hsome)
    have howner := hthere.2 [ascii ['a']] ⟨⟨none, [⟨1, .none⟩]⟩, .nil⟩ (by simp) List.prefix_rfl
      (by decide)
    exact absurd howner (by decide)
  -- neither "/b" nor "/b/c" is of domain 1
  have hothers : ∀ q e, q ≠ [] → q <+: [ascii ['b'], ascii ['c']] →
      sharedByTwo.root.lookup q = some e → isOwner e.label 1 = false := by
    intro q e hq hpre he
    rcases List.prefix_cons_iff.mp hpre with rfl | ⟨q', rfl, hpre'⟩
    · exact absurd rfl hq
    · rcases List.prefix_cons_iff.mp hpre' with rfl | ⟨q'', rfl, hpre''⟩
      · cases he
        decide
      · obtain rfl := List.prefix_nil.mp hpre''
        cases he
        decide
  have hb : (s'.root.lookup [ascii ['b']]).isSome :=
    (hstay [ascii ['b']] (by simp)).mpr ⟨by decide, fun q e hq hpre =>
      hothers q e hq (hpre.trans (List.prefix_append [ascii ['b']] [ascii ['c']]))⟩
  have hc : (s'.root.lookup [ascii ['b'], ascii ['c']]).isSome :=
    (hstay _ (by simp)).mpr ⟨by decide, hothers⟩
  obtain ⟨e', he'⟩ := Option.isSome_iff_exists.mp hb
  obtain ⟨e, he, -, hperms, -⟩ := hstrip [ascii ['b']] e' (by simp) he'
  have hbelow := hkeys [ascii ['b']] e e' he he'
  cases he
  refine ⟨s', e', hrun, hgone, hc, he', hperms.trans (by decide), hbelow.trans ?_⟩
  show List.filter _ [ascii ['c']] = [ascii ['c']]
  rw [List.filter_cons_of_pos (by simpa using hc), List.filter_nil]

end Xenlib
