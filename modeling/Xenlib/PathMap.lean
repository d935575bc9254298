import Xenlib.ServerSpec

/-!
The store as a map from paths to nodes. `PathMap` is what a client of the store sees: which
paths exist, the value and the permissions at each, and the order of the children. The node
tree refines it: looking up, writing and removing are the operations of the map.
-/

set_option autoImplicit false

namespace Xenlib

open Keyed Wp

/-- A finite map on paths that is closed under taking ancestors. At each path it keeps a label
and the order of the children, which are the paths one step further down. -/
structure PathMap (κ α : Type) where
  entry : List κ → Option (α × List κ)
  finite : {p | (entry p).isSome}.Finite
  ancestor : ∀ p q, (entry (p ++ q)).isSome → (entry p).isSome
  children : ∀ p a order, entry p = some (a, order) →
    order.Nodup ∧ ∀ k, k ∈ order ↔ (entry (p ++ [k])).isSome

def PathMap.Nearest {κ α : Type} (m : PathMap κ α) (q a : List κ) : Prop :=
  a <+: q ∧ (m.entry a).isSome ∧ ∀ r, r <+: q → (m.entry r).isSome → r <+: a

/-- The map after a write: missing prefixes of the path are added without a value, with the
given permissions or those of the nearest existing ancestor; the value is set when there is
one; a new child comes last; everything else is kept. -/
structure PathMap.Written (m m' : PathMap CString XsNode) (p : List CString)
    (data : Option CString) (perms : List XsPermEntry) : Prop where
  kept : ∀ q node order, m.entry q = some (node, order) →
    m'.entry q = some (⟨if q = p then data.or node.value else node.value, node.perms⟩,
      if (m.entry (q ++ towards q p)).isSome then order else order ++ towards q p)
  added : ∀ q, m.entry q = none → q <+: p → ∀ a node order, m.Nearest q a →
    m.entry a = some (node, order) →
    m'.entry q = some (⟨if q = p then data else none, if perms = [] then node.perms else perms⟩,
      towards q p)
  absent : ∀ q, m.entry q = none → ¬ q <+: p → m'.entry q = none

/-- The map after a removal: the path and what is below it are gone, and the parent no longer
lists it. -/
structure PathMap.Deleted {κ α : Type} [DecidableEq κ] (m m' : PathMap κ α) (p : List κ) :
    Prop where
  gone : ∀ q, p <+: q → m'.entry q = none
  kept : ∀ q a order, ¬ p <+: q → m.entry q = some (a, order) →
    m'.entry q = some (a, order.filter fun k => q ++ [k] ≠ p)
  absent : ∀ q, m.entry q = none → m'.entry q = none

def pathMap (root : XsEntry) (h : WellFormed root) : PathMap CString XsNode where
  entry := root.view
  finite := root.finite_paths
  ancestor := by
    intro p q hpq
    rw [Tree.view_isSome] at hpq ⊢
    exact Tree.lookup_isSome_of_append hpq
  children := by
    intro p a order hp
    refine ⟨?_, fun k => Tree.view_order hp k⟩
    unfold Tree.view at hp
    rw [Option.map_eq_some_iff] at hp
    obtain ⟨s, hs, he⟩ := hp
    cases he
    exact (Tree.distinct_lookup h.distinct hs).nodup_keys

theorem nearest_prefix {root : XsEntry} (h : WellFormed root) {q p a b : List CString}
    (hq : (pathMap root h).entry q = none) (hqp : q <+: p) (ha : (pathMap root h).Nearest q a)
    (hb : (pathMap root h).Nearest p b) : a = b := by
  have hab : a <+: b := hb.2.2 a (ha.1.trans hqp) ha.2.1
  rcases List.prefix_or_prefix_of_prefix hb.1 hqp with hbq | hqb
  · exact hab.eq_of_length_le (ha.2.2 b hbq hb.2.1).length_le
  · obtain ⟨r, rfl⟩ := hqb
    have hex := (pathMap root h).ancestor q r hb.2.1
    rw [hq] at hex
    cases hex

theorem anchor_nearest {root : XsEntry} (h : WellFormed root) {q p a : List CString}
    {node : XsNode} {order : List CString} (hq : (pathMap root h).entry q = none) (hqp : q <+: p)
    (ha : (pathMap root h).Nearest q a) (hnode : (pathMap root h).entry a = some (node, order)) :
    root.anchor p = node := by
  obtain ⟨b, s, hbp, hs, hlabel, hmax⟩ := Tree.anchor_spec p root
  have hb : (pathMap root h).Nearest p b := by
    refine ⟨hbp, ?_, fun r hr hex => hmax r hr ?_⟩
    · show (root.view b).isSome
      rw [Tree.view_isSome, hs]
      rfl
    · rw [← Tree.view_isSome]
      exact hex
  have hab := nearest_prefix h hq hqp ha hb
  subst hab
  have hview : root.view a = some (node, order) := hnode
  unfold Tree.view at hview
  rw [hs, Option.map_some, Option.some.injEq, Prod.mk.injEq] at hview
  rw [← hlabel]
  exact hview.1

theorem written_plant {root : XsEntry} {p : List CString} {data : Option CString}
    {perms : List XsPermEntry} (h : WellFormed root)
    (h' : WellFormed (root.plant (freshNode perms) (updNode data) p)) :
    (pathMap root h).Written (pathMap _ h') p data perms := by
  have hview := Tree.view_plant (freshNode perms) (updNode data) (freshNode_idem perms) p
  refine ⟨fun q node order hq => ?_, fun q hq hqp a node order ha hnode => ?_,
    fun q hq hqp => ?_⟩
  · have hq' : root.view q = some (node, order) := hq
    have hnode : (if q = p then updNode data node else node) =
        ⟨if q = p then data.or node.value else node.value, node.perms⟩ := by
      split <;> cases data <;> rfl
    show (root.plant _ _ p).view q = _
    rw [hview q root, hq']
    simp only [hnode]
    rfl
  · have hq' : root.view q = none := hq
    have hnode' : (if q = p then updNode data (freshNode perms node) else freshNode perms node) =
        ⟨if q = p then data else none, if perms = [] then node.perms else perms⟩ := by
      unfold freshNode
      by_cases hp : perms = [] <;> simp only [hp, ne_eq, not_true_eq_false, not_false_eq_true,
        if_true, if_false] <;> split <;> cases data <;> rfl
    show (root.plant _ _ p).view q = _
    rw [hview q root, hq']
    simp only [if_pos hqp, anchor_nearest h hq hqp ha hnode, hnode']
  · have hq' : root.view q = none := hq
    show (root.plant _ _ p).view q = _
    rw [hview q root, hq']
    simp only [if_neg hqp]

theorem erase_last {κ : Type} [DecidableEq κ] {q r order : List κ} {k : κ} (h : order.Nodup) :
    (if q = r then order.erase k else order) = order.filter fun j => q ++ [j] ≠ r ++ [k] := by
  by_cases hqr : q = r
  · subst hqr
    rw [if_pos rfl, h.erase_eq_filter]
    congr 1
    funext j
    by_cases hj : j = k <;> simp [hj]
  · rw [if_neg hqr]
    refine (List.filter_eq_self.mpr fun j _ => ?_).symm
    exact decide_eq_true fun he => hqr (List.append_inj_left' he rfl)

/-- Taking a subtree out of the tree deletes it from the map. -/
theorem deleted_remove {root : XsEntry} {p : List CString} (hp : p ≠ []) (h : WellFormed root)
    (h' : WellFormed (root.remove p)) : (pathMap root h).Deleted (pathMap _ h') p := by
  obtain ⟨r, k, rfl⟩ : ∃ r k, p = r ++ [k] :=
    ⟨p.dropLast, p.getLast hp, (List.dropLast_append_getLast hp).symm⟩
  have hview := fun q => Tree.view_remove r k q h.distinct
  refine ⟨fun q hq => ?_, fun q a order hq hnode => ?_, fun q hq => ?_⟩
  · show (root.remove _).view q = none
    rw [hview q, if_pos hq]
  · have hnode' : root.view q = some (a, order) := hnode
    show (root.remove _).view q = _
    rw [hview q, if_neg hq, hnode', Option.map_some]
    exact congrArg (fun o => some (a, o))
      (erase_last (((pathMap root h).children q a order hnode).1))
  · have hq' : root.view q = none := hq
    show (root.remove _).view q = none
    rw [hview q, hq']
    simp

theorem xssDoWriteDeadline_plant {path : CString} {data : Option CString} {domid : UInt32}
    {perms : List XsPermEntry} {deadline : Deadline} {s s' : Shared} (hwf : WellFormed s.root)
    (ht : tokens path ≠ [])
    (h : xssDoWriteDeadline path data domid perms deadline s = .ok (none, s')) :
    s'.root = s.root.plant (freshNode perms) (updNode data) (tokens path) := by
  have hspec : wp (xssDoWriteDeadline path data domid perms deadline)
      (fun rc t => rc = none → t.root = s.root.plant (freshNode perms) (updNode data) (tokens path))
      (fun _ => True) s := by
    refine wp_xssDoWriteDeadline (fun rc root rest locks _ hw hrc => ?_)
      (fun hp => absurd hwf.permsOk hp)
    subst hrc
    rcases hw with ⟨htok, _⟩ | hw
    · exact absurd htok ht
    · cases hw
      rfl
  exact wp_ok hspec h rfl

theorem xssDoRmDeadline_remove {path : CString} {callerId : UInt32} {deadline : Deadline}
    {s s' : Shared} (hpath : path ≠ [slash])
    (h : xssDoRmDeadline path callerId deadline s = .ok (none, s')) :
    s'.root = s.root.remove (tokens path) ∧ tokens path ≠ [] := by
  have hspec : wp (xssDoRmDeadline path callerId deadline)
      (fun rc t => rc = none → t.root = s.root.remove (tokens path) ∧ tokens path ≠ [])
      (fun _ => True) s := by
    unfold xssDoRmDeadline
    simp only [wp_bind, wp_pure]
    refine wp_mono (wp_xssDoRmLocked s) (fun r s₁ hr => ?_) (fun _ _ => trivial)
    obtain ⟨evs, hevs, hrm⟩ := hr
    refine wp_dispatchLocalWatchEventsLocked _ s₁ fun s₂ hf _ _ hrc => ?_
    rw [hf.root]
    obtain ⟨rc, localEvents⟩ := r
    simp only at hrc hrm
    subst hrc
    cases hrm with
    | freed s₀ entry hn hfound hg hfree =>
      obtain ⟨hep, htok⟩ := foundEntry_path hfound hpath
      rw [freeEntry_root hfree, freeNode, hn.frame.root, hep]
      exact ⟨rfl, htok⟩
  exact wp_ok hspec h rfl

/-- The tree refines the path map: lookup, write and removal of a normalized path other than
"/" are the operations of the map. -/
theorem store_refines_pathMap (s : Shared) (hwf : WellFormed s.root) (hmem : s.allocs = [])
    (p : CString) (hp : Normalized p) (hr : p ≠ [slash]) :
    (∃ e, keyToEntry s.root p s.allocs = .ok (e, []) ∧
      (e.map fun r => (r.path, r.entry.label, r.entry.children.keys)) =
        ((pathMap s.root hwf).entry (tokens p)).map fun v => (tokens p, v)) ∧
    (∀ data domid perms deadline s',
      xssDoWriteDeadline p data domid perms deadline s = .ok (none, s') →
      ∃ hwf' : WellFormed s'.root,
        (pathMap s.root hwf).Written (pathMap s'.root hwf') (tokens p) data perms) ∧
    (∀ callerId deadline s', xssDoRmDeadline p callerId deadline s = .ok (none, s') →
      ∃ hwf' : WellFormed s'.root,
        (pathMap s.root hwf).Deleted (pathMap s'.root hwf') (tokens p)) := by
  refine ⟨⟨_, by rw [hmem]; exact keyToEntry_nil s.root p, ?_⟩,
    fun data domid perms deadline s' h => ?_, fun callerId deadline s' h => ?_⟩
  · rw [foundEntry_normalized hp hr]
    show _ = (s.root.view (tokens p)).map _
    unfold Tree.view
    cases s.root.lookup (tokens p) <;> rfl
  · have hroot := xssDoWriteDeadline_plant hwf (hp.tokens_ne_nil hr).1 h
    have hwf' : WellFormed s'.root := by
      rw [hroot]
      exact hwf.plant (fun k hk => tokens_spec hk) (fun n hn => freshNode_perms_ne_nil hn)
        (fun n hn => by rwa [updNode_perms])
    refine ⟨hwf', ?_⟩
    obtain ⟨r, _⟩ := s'
    cases hroot
    exact written_plant hwf hwf'
  · obtain ⟨hroot, htok⟩ := xssDoRmDeadline_remove hr h
    have hwf' : WellFormed s'.root := by
      rw [hroot]
      exact hwf.remove _
    refine ⟨hwf', ?_⟩
    obtain ⟨r, _⟩ := s'
    cases hroot
    exact deleted_remove htok hwf hwf'

/-- Domain 1 writes "/a/b" below its own node. -/
theorem store_refines_pathMap_write : ∃ s' hwf',
    xssDoWriteDeadline (ascii ['/', 'a', '/', 'b']) (some (ascii ['v'])) 1 [] .forever ownedByOne =
      .ok (none, s') ∧
    (pathMap ownedByOne.root ownedByOne_wellFormed).Written (pathMap s'.root hwf')
      [ascii ['a'], ascii ['b']] (some (ascii ['v'])) [] := by
  have hp : Normalized (ascii ['/', 'a', '/', 'b']) := ⟨ascii ['/', 'a', '/', 'b'], 1, by decide⟩
  have hrun : ∃ s', xssDoWriteDeadline (ascii ['/', 'a', '/', 'b']) (some (ascii ['v'])) 1 []
      .forever ownedByOne = .ok (none, s') := ⟨_, rfl⟩
  obtain ⟨s', hs'⟩ := hrun
  obtain ⟨hwf', hw⟩ := (store_refines_pathMap ownedByOne ownedByOne_wellFormed rfl _ hp
    (by decide)).2.1 _ _ _ _ s' hs'
  exact ⟨s', hwf', hs', hw⟩

end Xenlib
