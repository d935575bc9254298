import Xenlib.ServerSpec

/-!
What a failed `xss_do_write_deadline` leaves behind. The rollback pointer is set after the new
node has its permissions, so a failure to allocate these leaves the first new node linked.
-/

set_option autoImplicit false

namespace Xenlib

open Keyed Wp

section Walk
variable (data : Option CString) (domid : UInt32) (perms : List XsPermEntry)

/-- The walk creates a node, and allocating the permission entries of this first new node
fails. -/
def NodeFails (toks : List CString) (t : XsEntry) (allocs : List Bool) : Prop :=
  ∃ p k rest n, toks = p ++ k :: rest ∧ t.lookup p = some n ∧ n.children.find? k = none ∧
    Grants n.label domid ∧ Supplied 2 allocs ∧
    ¬ Supplied (freshNode perms n.label).perms.length (allocs.drop 2)

variable {data domid perms}

theorem nodeFails_some {tok : CString} {toks : List CString} {t s : XsEntry} {allocs : List Bool}
    (hs : t.children.find? tok = some s) :
    NodeFails domid perms (tok :: toks) t allocs ↔ NodeFails domid perms toks s allocs := by
  constructor
  · rintro ⟨p, k, rest, n, htoks, hp, hk, h⟩
    cases p with
    | nil =>
      cases hp
      cases htoks
      rw [hs] at hk
      cases hk
    | cons q p =>
      cases htoks
      rw [Tree.lookup_cons, hs] at hp
      exact ⟨p, k, rest, n, rfl, hp, hk, h⟩
  · rintro ⟨p, k, rest, n, rfl, hp, h⟩
    refine ⟨tok :: p, k, rest, n, rfl, ?_, h⟩
    rw [Tree.lookup_cons, hs]
    exact hp

theorem nodeFails_none {tok : CString} {toks : List CString} {t : XsEntry} {allocs : List Bool}
    (hnone : t.children.find? tok = none) :
    NodeFails domid perms (tok :: toks) t allocs ↔ Grants t.label domid ∧ Supplied 2 allocs ∧
      ¬ Supplied (freshNode perms t.label).perms.length (allocs.drop 2) := by
  constructor
  · rintro ⟨p, k, rest, n, htoks, hp, hk, h⟩
    cases p with
    | nil =>
      cases hp
      exact h
    | cons q p =>
      cases htoks
      rw [Tree.lookup_cons, hnone] at hp
      cases hp
  · intro h
    exact ⟨[], tok, toks, t, rfl, rfl, hnone, h⟩

theorem not_nodeFails_nil {t : XsEntry} {allocs : List Bool} :
    ¬ NodeFails domid perms [] t allocs := by
  rintro ⟨p, k, rest, n, htoks, -⟩
  simp at htoks

theorem wp_newEntryPerms_cases {parent : XsNode} {Q : Option Errno × XsNode → List Bool → Prop}
    {E : Fault → Prop} {allocs : List Bool}
    (hok : Supplied (freshNode perms parent).perms.length allocs → ∀ rest,
      Q (none, freshNode perms parent) rest)
    (hfail : ¬ Supplied (freshNode perms parent).perms.length allocs → ∀ rest,
      Q (some .enomem, ⟨none, []⟩) rest) :
    wp (newEntryPerms perms parent domid) Q E allocs := by
  unfold newEntryPerms
  by_cases hp : perms ≠ []
  · simp only [freshNode, if_pos hp] at hok hfail
    rw [if_pos hp]
    unfold setPermsByArray
    rw [wp_bind]
    exact wp_kMallocs (fun h => hok h _) (fun h rest => hfail h rest)
  · simp only [freshNode, if_neg hp] at hok hfail
    rw [if_neg hp]
    unfold inheritPerms
    rw [wp_bind]
    exact wp_kMallocs (fun h => hok h _) (fun h rest => hfail h rest)

theorem wp_writeValue_error {iter : XsEntry} {allocs : List Bool} :
    wp (writeValue data domid iter) (fun r _ => r.1 ≠ none → r.2 = iter) (fun _ => True)
      allocs := by
  unfold writeValue
  cases data with
  | none => exact fun _ => rfl
  | some value =>
    rw [wp_bind]
    refine wp_lift (fun b _ => ?_) (fun _ _ => trivial)
    cases b with
    | false => exact fun _ => rfl
    | true =>
      simp only [if_true, wp_bind, wp_kMalloc]
      split
      · exact fun h => absurd rfl h
      · exact fun _ => rfl

/-- What a walk that started with `allocs` leaves of the tree `t`: an error changes nothing,
unless the first new node fails; the walk then ends with -ENOMEM and a node more. -/
structure ErrorLeaves (fails : Prop) (t : XsEntry) (r : Option Errno × XsEntry) : Prop where
  changed : fails → r.1 = some .enomem ∧ r.2 ≠ t
  same : ¬ fails → r.1 ≠ none → r.2 = t

theorem wp_writeWalk_error (toks : List CString) (t : XsEntry) (allocs : List Bool) :
    wp (writeWalk data domid perms toks false t)
      (fun r _ => ErrorLeaves (NodeFails domid perms toks t allocs) t r)
      (fun _ => ¬ NodeFails domid perms toks t allocs) allocs := by
  induction toks generalizing t allocs with
  | nil =>
    unfold writeWalk
    exact wp_mono wp_writeValue_error (fun r _ h => ⟨fun hn => absurd hn not_nodeFails_nil,
      fun _ => h⟩) (fun _ _ => not_nodeFails_nil)
  | cons tok toks ih =>
    unfold writeWalk
    cases hf : t.children.find? tok with
    | some s =>
      simp only [wp_bind, nodeFails_some hf]
      refine wp_mono (ih s allocs) (fun r rest h => ⟨fun hn => ?_, fun hn hr => ?_⟩) (fun _ h => h)
      · refine ⟨(h.changed hn).1, fun ht => (h.changed hn).2 ?_⟩
        have hset := Forest.find?_set_self (t := r.2) hf
        rw [show t.children.set tok r.2 = t.children from congrArg Tree.children ht, hf] at hset
        exact (Option.some.inj hset).symm
      · change ({ t with children := t.children.set tok r.2 } : XsEntry) = t
        rw [h.same hn hr, Forest.set_find? hf]
    | none =>
      simp only [nodeFails_none hf, wp_bind]
      refine wp_lift (fun b hb => ?_) (fun e he hg => ?_)
      · cases b with
        | false =>
          refine ⟨fun hg => ?_, fun _ _ => rfl⟩
          rw [hg.1] at hb
          cases hb
        | true =>
          have htwo : Supplied 2 allocs ↔
              allocs.getD 0 true = true ∧ (allocs.drop 1).getD 0 true = true := by
            rw [show 2 = 1 + 1 from rfl, supplied_add, supplied_one, supplied_one]
          simp only [Bool.not_true, Bool.false_eq_true, if_false, wp_bind, wp_kMalloc]
          cases h₀ : allocs.getD 0 true with
          | false =>
            refine ⟨fun hg => ?_, fun _ _ => rfl⟩
            rw [(htwo.mp hg.2.1).1] at h₀
            cases h₀
          | true =>
            simp only [Bool.not_true, Bool.false_eq_true, if_false, wp_bind, wp_kMalloc]
            cases h₁ : (allocs.drop 1).getD 0 true with
            | false =>
              refine ⟨fun hg => ?_, fun _ _ => rfl⟩
              rw [(htwo.mp hg.2.1).2] at h₁
              cases h₁
            | true =>
              simp only [Bool.not_true, Bool.false_eq_true, if_false, wp_bind, List.drop_drop]
              refine wp_newEntryPerms_cases (fun hall rest => ?_) (fun hfail rest => ?_)
              · simp only [wp_bind]
                refine wp_mono (wp_trivial _ _) (fun r _ _ => ?_) (fun _ _ hg => hg.2.2 hall)
                split
                · exact ⟨fun hg => absurd hall hg.2.2, fun _ _ => rfl⟩
                · rename_i hc
                  refine ⟨fun hg => absurd hall hg.2.2, fun _ hr => absurd ?_ hc⟩
                  simpa [Option.isSome_iff_ne_none] using hr
              · refine ⟨fun _ => ⟨rfl, fun ht => ?_⟩,
                  fun hg => absurd ⟨hb, htwo.mpr ⟨h₀, h₁⟩, hfail⟩ hg⟩
                have happ := Forest.find?_append_self (t := ⟨⟨none, []⟩, .nil⟩) hf
                rw [show t.children.append tok ⟨⟨none, []⟩, .nil⟩ = t.children from
                  congrArg Tree.children ht, hf] at happ
                cases happ
      · rw [hg.1] at he
        cases he

end Walk

/-- The call has the path copied and the lock, and then fails to allocate the permissions of
the first node it creates. -/
def FirstNodeFails (path : CString) (domid : UInt32) (perms : List XsPermEntry)
    (deadline : Deadline) (s : Shared) : Prop :=
  s.allocs.getD 0 true = true ∧ ¬ TimesOut deadline 1 s.locks ∧
    NodeFails domid perms (tokens path) s.root (s.allocs.drop 1)

theorem wp_writeTree_error {path : CString} {data : Option CString} {domid : UInt32}
    {perms : List XsPermEntry} {root : XsEntry} {allocs : List Bool} :
    wp (writeTree path data domid perms root)
      (fun r _ => ErrorLeaves (NodeFails domid perms (tokens path) root allocs) root r)
      (fun _ => ¬ NodeFails domid perms (tokens path) root allocs) allocs := by
  unfold writeTree
  cases ht : tokens path with
  | nil => exact ⟨fun hn => absurd hn not_nodeFails_nil, fun _ _ => rfl⟩
  | cons tok toks => exact wp_writeWalk_error (tok :: toks) root allocs

theorem wp_xssDoWriteDeadline_error (path : CString) (data : Option CString) (domid : UInt32)
    (perms : List XsPermEntry) (deadline : Deadline) (s : Shared) :
    wp (xssDoWriteDeadline path data domid perms deadline)
      (fun rc s' => ErrorLeaves (FirstNodeFails path domid perms deadline s) s.root (rc, s'.root))
      (fun _ => ¬ FirstNodeFails path domid perms deadline s) s := by
  unfold xssDoWriteDeadline
  simp only [wp_bind, wp_alloc, wp_kMalloc]
  cases h₀ : s.allocs.getD 0 true with
  | false =>
    refine ⟨fun hn => ?_, fun _ _ => rfl⟩
    rw [hn.1] at h₀
    cases h₀
  | true =>
    simp only [Bool.not_true, Bool.false_eq_true, if_false, wp_bind]
    refine wp_lock_cases (fun hout => ⟨fun hn => absurd hout hn.2.1, fun _ _ => rfl⟩)
      (fun hin => ?_)
    have hiff : FirstNodeFails path domid perms deadline s ↔
        NodeFails domid perms (tokens path) s.root (s.allocs.drop 1) :=
      ⟨fun h => h.2.2, fun h => ⟨h₀, hin, h⟩⟩
    simp only [wp_bind, wp_get, wp_alloc, wp_modify, wp_pure, hiff]
    exact wp_writeTree_error

/-- A write that fails leaves the tree as it was exactly when it does not fail on the
permissions of the first node it creates. -/
theorem failed_write_unchanged_iff (path : CString) (data : Option CString) (domid : UInt32)
    (perms : List XsPermEntry) (deadline : Deadline) (s : Shared) :
    (∀ e s', xssDoWriteDeadline path data domid perms deadline s = .ok (some e, s') →
      s'.root = s.root) ↔ ¬ FirstNodeFails path domid perms deadline s := by
  have hspec := wp_xssDoWriteDeadline_error path data domid perms deadline s
  constructor
  · intro h hn
    cases hrun : xssDoWriteDeadline path data domid perms deadline s with
    | error e => exact wp_error hspec hrun hn
    | ok r =>
      obtain ⟨rc, s'⟩ := r
      obtain ⟨hrc, hroot⟩ := (wp_ok hspec hrun).changed hn
      exact hroot (h .enomem s' (by rw [hrun, ← hrc]))
  · intro hn e s' hrun
    exact (wp_ok hspec hrun).same hn (by simp)

/-- Memory for the path, the node and its key, and none for the entry of its permission list. -/
def oneFailure : Shared := { ownedByOne with allocs := [true, true, true, false] }

/-- Dom0 writes "/b", which is left without permissions. -/
theorem failed_write_leaves_node :
    ¬ ∀ (path : CString) (data : Option CString) (domid : UInt32) (perms : List XsPermEntry)
      (deadline : Deadline) (s : Shared) (e : Errno) (s' : Shared),
      xssDoWriteDeadline path data domid perms deadline s = .ok (some e, s') →
        s'.root = s.root := by
  intro h
  have hrun : ∃ s', xssDoWriteDeadline (ascii ['/', 'b']) (some (ascii ['v'])) 0 [] .forever
      oneFailure = .ok (some .enomem, s') ∧ s'.root ≠ oneFailure.root :=
    ⟨_, rfl, by decide⟩
  obtain ⟨s', hok, hne⟩ := hrun
  exact hne (h _ _ _ _ _ _ _ _ hok)

end Xenlib
