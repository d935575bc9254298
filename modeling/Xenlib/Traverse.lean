import Xenlib.Lib.Preorder
import Xenlib.Notification

/-!
`xss_list_traverse`. Its top level is outside the recursion, and the limit is looked at only inside.
-/

set_option autoImplicit false

namespace Xenlib

open Keyed Wp

/-- A call of the callback. The root has no key. -/
structure Visit where
  key : Option CString
  value : Option CString
  depth : Nat
  deriving DecidableEq

/-- The loop over the children of a node, `xss_list_traverse_entry` for each. `limit` is
`CONFIG_XENSTORE_TREE_TRAVERSE_DEPTH`. -/
def traverseChildren (limit : Nat) : EntryList → Nat → List Visit
  | .nil, _ => []
  | .cons key node children next, depth =>
    (⟨some key, node.value, depth⟩ ::
      if depth + 1 ≥ limit then [] else traverseChildren limit children (depth + 1)) ++
    traverseChildren limit next depth

/-- `cb` tells whether there is a callback. -/
def xssListTraverse (limit : Nat) (path : CString) (cb : Bool) :
    SrvM (Option Errno × List Visit) := do
  if !cb then pure (some .einval, [])
  else
    let s ← get
    match ← alloc (keyToEntry s.root path) with
    | none => pure (some .enoent, [])
    | some entry =>
      pure (none, ⟨entry.path.getLast?, entry.entry.label.value, 0⟩ ::
        traverseChildren limit entry.entry.children 1)

def nodesWithin (limit : Nat) (start : XsEntry) : List (List CString × XsNode) :=
  start.preorder.filter fun n => n.1.length < limit

/-- The call for a node. The start itself has the key it is found under. -/
def visitOf (start : Option CString) (n : List CString × XsNode) : Visit :=
  ⟨n.1.getLast?.or start, n.2.value, n.1.length⟩

theorem nodesWithin_nodup {start : XsEntry} (hd : start.children.Distinct) (limit : Nat) :
    ((nodesWithin limit start).map Prod.fst).Nodup :=
  (Tree.nodup_preorder hd).sublist (List.filter_sublist.map _)

theorem mem_nodesWithin {start : XsEntry} (hd : start.children.Distinct) (limit : Nat)
    (q : List CString) (node : XsNode) :
    (q, node) ∈ nodesWithin limit start ↔ start.node q = some node ∧ q.length < limit := by
  rw [nodesWithin, List.mem_filter, Tree.mem_preorder hd]
  simp

/-- The loop visits the roots of its forest whatever the limit is. -/
theorem traverseChildren_eq (limit : Nat) (start : Option CString) (f : EntryList)
    (p : List CString) :
    traverseChildren limit f (p.length + 1) =
      ((f.preorder p).filter fun n => n.1.length < max limit (p.length + 2)).map
        (visitOf start) := by
  induction f generalizing p with
  | nil => rfl
  | cons key node children next ihc ihn =>
    have hlen : (p ++ [key]).length = p.length + 1 := by simp
    have hroot : decide ((p ++ [key]).length < max limit (p.length + 2)) = true := by
      rw [decide_eq_true_eq]
      omega
    have hbelow : (if p.length + 1 + 1 ≥ limit then []
        else traverseChildren limit children (p.length + 1 + 1)) =
        ((children.preorder (p ++ [key])).filter
          fun n => n.1.length < max limit (p.length + 2)).map (visitOf start) := by
      split
      · rename_i hge
        rw [List.filter_eq_nil_iff.mpr fun n hn => ?_, List.map_nil]
        have hdeep := Forest.preorder_length hn
        rw [decide_eq_true_eq]
        omega
      · rename_i hlt
        rw [← hlen, ihc, hlen,
          show max limit (p.length + 1 + 2) = max limit (p.length + 2) by omega]
    rw [traverseChildren, Forest.preorder, List.filter_cons, if_pos hroot, List.map_cons,
      List.filter_append, List.map_append, hbelow, ihn]
    simp [visitOf]

section Runs
variable {s : Shared} {path : CString} {e : EntryRef} {limit : Nat}

theorem xssListTraverse_run (hf : foundEntry s.root path = some e) (hmem : false ∉ s.allocs) :
    ∃ s', xssListTraverse limit path true s =
      .ok ((none, (nodesWithin (max limit 2) e.entry).map (visitOf e.path.getLast?)), s') := by
  have hrun : wp (xssListTraverse limit path true)
      (fun r _ => r = (none, (nodesWithin (max limit 2) e.entry).map (visitOf e.path.getLast?)))
      (fun _ => False) s := by
    unfold xssListTraverse
    simp only [Bool.not_true, Bool.false_eq_true, if_false, wp_bind, wp_get, wp_alloc]
    refine wp_keyToEntry (fun rest _ => ?_) (fun _ _ hfail => absurd hfail hmem)
    rw [hf]
    have hchildren := traverseChildren_eq limit e.path.getLast? e.entry.children []
    rw [List.length_nil, Nat.zero_add] at hchildren
    simp [nodesWithin, Tree.preorder, hchildren, visitOf]
  obtain ⟨r, s', hrun, rfl⟩ := wp_total hrun
  exact ⟨s', hrun⟩

theorem nodesWithin_two {start : XsEntry} (hlimit : 1 ≤ limit) :
    (nodesWithin (max limit 2) start).length = (nodesWithin limit start).length ↔
      2 ≤ limit ∨ start.children = .nil := by
  constructor
  · intro h
    by_contra hno
    obtain ⟨hlt, hne⟩ := not_or.mp hno
    obtain rfl : limit = 1 := by omega
    cases hc : start.children with
    | nil => exact hne hc
    | cons k a children next =>
      have hone : nodesWithin 1 start = [([], start.label)] := by
        rw [nodesWithin, Tree.preorder, List.filter_cons_of_pos (by simp),
          List.filter_eq_nil_iff.mpr fun n hn => ?_]
        have := Forest.preorder_length hn
        rw [decide_eq_true_eq]
        omega
      rw [hone] at h
      simp [nodesWithin, Tree.preorder, hc, Forest.preorder] at h
  · rintro (h | h)
    · rw [max_eq_left h]
    · simp only [nodesWithin, Tree.preorder, h, Forest.preorder, List.filter_cons, List.length_nil]
      rw [if_pos (by simp), if_pos (by simp; omega)]
      rfl

/-- Every node whose depth below the start is less than the limit is visited once and no other
one, in pre-order, exactly when the limit is not 1 or the start has no children. -/
theorem traverse_within_iff (hw : WellFormed s.root) (hf : foundEntry s.root path = some e)
    (hmem : false ∉ s.allocs) (hlimit : 1 ≤ limit) :
    ((∃ s', xssListTraverse limit path true s =
        .ok ((none, (nodesWithin limit e.entry).map (visitOf e.path.getLast?)), s')) ↔
      2 ≤ limit ∨ e.entry.children = .nil) ∧
    ((nodesWithin limit e.entry).map Prod.fst).Nodup ∧
    (∀ q node, (q, node) ∈ nodesWithin limit e.entry ↔
      e.entry.node q = some node ∧ q.length < limit) := by
  have hd := Tree.distinct_lookup hw.distinct (foundEntry_lookup hf)
  refine ⟨?_, nodesWithin_nodup hd limit, mem_nodesWithin hd limit⟩
  obtain ⟨s', hrun⟩ := @xssListTraverse_run s path e limit hf hmem
  constructor
  · rintro ⟨s'', hrun'⟩
    rw [hrun] at hrun'
    have hvisits := congrArg List.length (Prod.mk.inj (Prod.mk.inj (Except.ok.inj hrun')).1).2
    rw [List.length_map, List.length_map] at hvisits
    exact (nodesWithin_two hlimit).mp hvisits
  · intro h
    refine ⟨s', hrun.trans ?_⟩
    have hsub : (nodesWithin limit e.entry).Sublist (nodesWithin (max limit 2) e.entry) := by
      refine List.monotone_filter_right _ fun n hn => ?_
      rw [decide_eq_true_eq] at hn ⊢
      omega
    rw [hsub.eq_of_length ((nodesWithin_two hlimit).mpr h).symm]

end Runs

/-- The root and the node of domain 1. -/
theorem traverse_within_eight :
    ∃ s', xssListTraverse 8 (ascii ['/']) true ownedByOne =
      .ok ((none, [⟨none, none, 0⟩, ⟨some (ascii ['a']), none, 1⟩]), s') :=
  (@traverse_within_iff ownedByOne (ascii ['/']) ⟨[], ownedByOne.root⟩ 8 ownedByOne_wellFormed
    (by decide) List.not_mem_nil (by decide)).1.mpr (.inl (by decide))

/-- With a limit of 1 the children of the start are visited, too. -/
theorem one_level_exceeded :
    ¬ ∀ (limit : Nat) (s : Shared) (path : CString) (e : EntryRef), 1 ≤ limit → limit ≤ 16 →
      WellFormed s.root → foundEntry s.root path = some e → false ∉ s.allocs →
      ∃ s', xssListTraverse limit path true s =
        .ok ((none, (nodesWithin limit e.entry).map (visitOf e.path.getLast?)), s') := by
  intro h
  obtain ⟨s', hrun⟩ := h 1 ownedByOne (ascii ['/']) ⟨[], ownedByOne.root⟩ (by decide) (by decide)
    ownedByOne_wellFormed (by decide) List.not_mem_nil
  have hvisits : some 2 = some 1 := congrArg (fun r => r.toOption.map fun r => r.1.2.length) hrun
  exact absurd hvisits (by decide)

end Xenlib
