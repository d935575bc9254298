import Xenlib.Departure
import Xenlib.Lib.Plant
import Xenlib.StoreSetup

/-!
What the calls of the control domain change in the tree, node by node. A write adds nodes on the
way to its path, a removal and the departure of a domain only take nodes away.
-/

set_option autoImplicit false

namespace Xenlib

open Keyed Wp

/-- The tree after a write to `p` that has returned `rc`. -/
structure NodeWritten (p : List CString) (value : CString) (rc : Option Errno) (t t' : XsEntry) :
    Prop where
  distinct : t'.children.Distinct
  kept : ∀ q n, t.node q = some n → ∃ n', t'.node q = some n' ∧ (n' = n ∨ q = p ∧ rc = none)
  added : ∀ q n', t.node q = none → t'.node q = some n' →
    q <+: p ∧ (n'.value = none ∨ q = p ∧ rc = none)
  value : rc = none → ∃ n', t'.node p = some n' ∧ n'.value = some value

section Write
variable {p : List CString} {value : CString} {perms : List XsPermEntry} {t t' : XsEntry}

theorem NodeWritten.refused (hd : t.children.Distinct) (e : Errno) :
    NodeWritten p value (some e) t t where
  distinct := hd
  kept _ n hn := ⟨n, hn, Or.inl rfl⟩
  added q n' hq hn' := by rw [hq] at hn'; cases hn'
  value := nofun

theorem NodeWritten.planted (hd : t.children.Distinct) :
    NodeWritten p value none t (t.plant (freshNode perms) (updNode (some value)) p) where
  distinct := Tree.distinct_plant hd
  kept q n hn := by
    rw [Tree.node_plant (freshNode_idem perms), hn]
    refine ⟨_, rfl, ?_⟩
    by_cases hq : q = p
    · exact Or.inr ⟨hq, rfl⟩
    · exact Or.inl (if_neg hq)
  added q n' hq hn' := by
    simp only [Tree.node_plant (freshNode_idem perms), hq] at hn'
    split at hn'
    · rename_i hpre
      refine ⟨hpre, ?_⟩
      by_cases hqp : q = p
      · exact Or.inr ⟨hqp, rfl⟩
      · rw [if_neg hqp] at hn'
        cases hn'
        exact Or.inl rfl
    · cases hn'
  value _ := by
    rw [Tree.node_plant (freshNode_idem perms)]
    cases hp : t.node p with
    | some n => exact ⟨_, rfl, by rw [if_pos rfl]; rfl⟩
    | none =>
      simp only [List.prefix_rfl, if_true]
      exact ⟨_, rfl, rfl⟩

theorem NodeWritten.leftover {q : List CString} (hd : t.children.Distinct) (hq : q <+: p)
    (e : Errno) : NodeWritten p value (some e) t (t.plant (fun _ => ⟨none, []⟩) id q) where
  distinct := Tree.distinct_plant hd
  kept r n hn := by
    rw [@Tree.node_plant CString XsNode _ (fun _ => ⟨none, []⟩) id (fun _ => rfl), hn]
    exact ⟨_, rfl, Or.inl (ite_self n)⟩
  added r n' hr hn' := by
    rw [@Tree.node_plant CString XsNode _ (fun _ => ⟨none, []⟩) id (fun _ => rfl), hr] at hn'
    simp only at hn'
    split at hn'
    · rename_i hpre
      refine ⟨hpre.trans hq, Or.inl ?_⟩
      cases hn'
      simp
    · cases hn'
  value := nofun

theorem Wrote.nodes {s : Shared} {rc : Option Errno} (hc : Components p) (hne : p ≠ [])
    (hd : s.root.children.Distinct)
    (h : Wrote (renderPath p) (some value) 0 perms s rc t') : NodeWritten p value rc s.root t' := by
  have htoks := tokens_renderPath hc
  rcases h with ⟨hnil, -, -⟩ | h
  · rw [htoks] at hnil
    exact absurd hnil hne
  rw [htoks] at h
  cases h with
  | refused e => exact .refused hd e
  | written => exact .planted hd
  | leftover q rest k n _ htoks =>
    refine .leftover hd ?_ _
    rw [htoks]
    exact ⟨rest, by simp⟩
  | dropped h => cases h

theorem wp_xssWriteWith_wrote (path : CString) (s : Shared) :
    wp (xssWriteWith (some path) (some value) perms)
      (fun rc s' => Wrote path (some value) 0 perms s rc s'.root) (fun _ => True) s := by
  unfold xssWriteWith
  rw [wp_bind]
  refine wp_xssDoWriteDeadline (fun rc root rest locks _ hw => ?_) (fun _ => trivial)
  cases rc with
  | some e => exact hw
  | none =>
    rw [wp_bind]
    refine wp_notifyWatchers (fun s₁ s' _ hn hf _ _ => ?_) (fun _ _ => trivial)
    rw [wp_pure, (hn.frame.trans hf).root]
    exact hw

theorem wp_xssWriteWith_nodes {s : Shared} (hc : Components p) (hne : p ≠ [])
    (hd : s.root.children.Distinct) :
    wp (xssWriteWith (some (renderPath p)) (some value) perms)
      (fun rc s' => NodeWritten p value rc s.root s'.root) (fun _ => True) s :=
  wp_conseq (wp_xssWriteWith_wrote _ s) fun _ _ hw => hw.nodes hc hne hd

end Write

section Remove
variable {p : List CString} {s : Shared}

theorem wp_xssRm_root (path : CString) :
    wp (xssRm (some path)) (fun _ s' => s'.root = s.root ∨
      ∃ entry, foundEntry s.root path = some entry ∧ entry.path ≠ [] ∧
        s'.root = s.root.remove entry.path)
      (fun _ => True) s := by
  unfold xssRm xssDoRmDeadline
  rw [wp_bind]
  refine wp_mono (wp_xssDoRmLocked s) (fun r s₁ hr => ?_) (fun _ _ => trivial)
  obtain ⟨rc, ids⟩ := r
  obtain ⟨evs, -, hrm⟩ := hr
  rw [wp_bind]
  refine wp_dispatchLocalWatchEventsLocked ids s₁ fun s' hf _ _ => ?_
  rw [wp_pure, hf.root]
  cases hrm with
  | refused e hn => exact Or.inl hn.frame.root
  | freed s₂ entry hn hfound hg hfree =>
    refine Or.inr ⟨entry, hfound, (freeEntry_ok hfree).1, ?_⟩
    rw [freeEntry_root hfree, freeNode, hn.frame.root]

end Remove

/-- Where the recursion comes to its end it has pruned the forest. -/
theorem removeRefEntriesRecursive_ok {domid : UInt32} {f f' : EntryList}
    (h : removeRefEntriesRecursive domid f = .ok f') :
    f' = f.prune (fun n => isOwner n domid) (stripPerms domid) := by
  induction f generalizing f' with
  | nil =>
    cases h
    rfl
  | cons key node children next ihc ihn =>
    cases hp : node.perms with
    | nil => simp [removeRefEntriesRecursive, hp] at h
    | cons owner ps =>
      by_cases ho : owner.domid.toUInt32 = domid
      · have howner : isOwner node domid = true := by simp [isOwner, hp, ho]
        simp only [removeRefEntriesRecursive, hp, List.head?_cons, ho, if_true] at h
        rw [ihn h, Forest.prune, if_pos howner]
      · have howner : ¬ isOwner node domid = true := by simp [isOwner, hp, ho]
        simp only [removeRefEntriesRecursive, hp, List.head?_cons, ho, if_false] at h
        rw [Forest.prune, if_neg howner]
        cases hc : removeRefEntriesRecursive domid children with
        | error e => simp [hc] at h
        | ok c =>
          cases hn : removeRefEntriesRecursive domid next with
          | error e => simp [hc, hn] at h
          | ok n =>
            simp only [hc, hn, Except.ok.injEq] at h
            rw [← h, ihc hc, ihn hn]

section Depart
variable {domid : UInt32} {t : XsEntry}

theorem distinct_departedRoot (hd : t.children.Distinct) :
    (departedRoot domid t).children.Distinct := Forest.distinct_prune hd

theorem node_departedRoot {q : List CString} {n' : XsNode} (hq : q ≠ [])
    (hd : t.children.Distinct) :
    (departedRoot domid t).node q = some n' ↔
      ∃ n, t.node q = some n ∧ n' = stripPerms domid n ∧
        ∀ r m, r ≠ [] → r <+: q → t.node r = some m → isOwner m domid = false := by
  constructor
  · intro h
    obtain ⟨e', he', rfl⟩ := Option.map_eq_some_iff.mp h
    obtain ⟨e, he, rfl, hkept⟩ := (departedRoot_lookup hq hd).mp he'
    refine ⟨e.label, by rw [Keyed.Tree.node, he]; rfl, rfl, fun r m hr hpre hm => ?_⟩
    obtain ⟨e₁, he₁, rfl⟩ := Option.map_eq_some_iff.mp hm
    exact hkept r e₁ hr hpre he₁
  · rintro ⟨n, hn, rfl, hkept⟩
    obtain ⟨e, he, rfl⟩ := Option.map_eq_some_iff.mp hn
    have hfound := (departedRoot_lookup hq hd).mpr ⟨e, he, rfl, fun r m hr hpre hm =>
      hkept r m.label hr hpre (by rw [Keyed.Tree.node, hm]; rfl)⟩
    rw [Keyed.Tree.node, hfound]
    rfl

theorem departedRoot_absent {q : List CString} (hq : q ≠ []) (hd : t.children.Distinct)
    (h : t.node q = none) : (departedRoot domid t).node q = none := by
  by_contra hsome
  obtain ⟨n', hn'⟩ := Option.ne_none_iff_exists'.mp hsome
  obtain ⟨n, hn, -⟩ := (node_departedRoot hq hd).mp hn'
  rw [h] at hn
  cases hn

end Depart

end Xenlib
