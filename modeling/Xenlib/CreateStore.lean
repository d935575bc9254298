import Xenlib.BestEffort
import Xenlib.LiveNames
import Xenlib.SetupUndone

/-!
The store while a domain is created, when one of its allocations fails. The scan for the name
passes over a domain whose node it finds no memory for, a write gives up, and a notification goes on
without telling its watch.
-/

set_option autoImplicit false

namespace Xenlib

open Keyed Wp

/-- `some k`: after `k` allocations that succeed comes one that fails. All others succeed. -/
def failAfter : Option Nat → List Bool
  | none => []
  | some k => List.replicate k true ++ [false]

/-- The failure is among the first `n` allocations. -/
def within (n : Nat) (o : Option Nat) : Bool := o.any fun k => decide (k < n)

/-- What is still to come after `n` allocations. -/
def behind (n : Nat) : Option Nat → Option Nat
  | none => none
  | some k => if k < n then none else some (k - n)

section After
variable {n m : Nat} {o : Option Nat}

@[simp] theorem within_none (n : Nat) : within n none = false := rfl

@[simp] theorem behind_none (n : Nat) : behind n none = none := rfl

@[simp] theorem within_zero (o : Option Nat) : within 0 o = false := by
  cases o <;> simp [within]

@[simp] theorem behind_zero (o : Option Nat) : behind 0 o = o := by
  cases o <;> simp [behind]

theorem behind_of_within (h : within n o = true) : behind n o = none := by
  cases o with
  | none => rfl
  | some k =>
    have hlt : k < n := by simpa [within] using h
    rw [behind, if_pos hlt]

theorem within_add (n m : Nat) (o : Option Nat) :
    within (n + m) o = (within n o || within m (behind n o)) := by
  cases o with
  | none => rfl
  | some k =>
    by_cases hlt : k < n
    · simp [within, behind, hlt, Nat.lt_add_right]
    · have hiff : k < n + m ↔ k - n < m := by omega
      simp [within, behind, hlt, hiff]

theorem behind_add (n m : Nat) (o : Option Nat) : behind (n + m) o = behind m (behind n o) := by
  cases o with
  | none => rfl
  | some k =>
    by_cases hlt : k < n
    · have hsum : k < n + m := by omega
      simp [behind, hlt, hsum]
    · have hiff : k < n + m ↔ k - n < m := by omega
      simp [behind, hlt, hiff, Nat.sub_sub]

theorem wp_kMalloc_after {Q : Bool → List Bool → Prop} {E : Fault → Prop}
    (h : Q (!within 1 o) (failAfter (behind 1 o))) : wp kMalloc Q E (failAfter o) := by
  cases o with
  | none => exact h
  | some k =>
    cases k with
    | zero => exact h
    | succ k => exact h

theorem wp_kMallocs_after {Q : Bool → List Bool → Prop} {E : Fault → Prop} (n : Nat)
    (h : Q (!within n o) (failAfter (behind n o))) : wp (kMallocs n) Q E (failAfter o) := by
  induction n generalizing o with
  | zero =>
    rw [within_zero, behind_zero] at h
    exact h
  | succ n ih =>
    rw [Nat.add_comm, within_add, behind_add] at h
    unfold kMallocs
    rw [wp_bind]
    refine wp_kMalloc_after ?_
    cases hfail : within 1 o with
    | true =>
      rw [behind_of_within hfail, hfail] at h
      rw [behind_of_within hfail]
      exact h
    | false =>
      rw [hfail, Bool.false_or] at h
      exact ih h

end After

/-- The computation makes `n` allocations as long as they succeed, and fails where one does. -/
def Took (n : Nat) (o : Option Nat) (failed : Bool) (rest : List Bool) : Prop :=
  failed = within n o ∧ rest = failAfter (behind n o)

section Took
variable {n m : Nat} {o : Option Nat} {failed : Bool} {rest : List Bool}

theorem Took.stopped (h : within n o = true) (m : Nat) :
    Took (n + m) o true (failAfter (behind n o)) := by
  refine ⟨?_, ?_⟩
  · rw [within_add, h, Bool.true_or]
  · rw [behind_add, behind_of_within h, behind_none]

theorem Took.step (h : within n o = false) (hrest : Took m (behind n o) failed rest) :
    Took (n + m) o failed rest := by
  refine ⟨?_, ?_⟩
  · rw [within_add, h, Bool.false_or]
    exact hrest.1
  · rw [behind_add]
    exact hrest.2

end Took

inductive AllocUse where
  | scan
  | write
  /-- The permissions of the first node that a write adds. -/
  | perms (q : List CString)
  | notify
deriving DecidableEq

/-- Without such an allocation a write fails. -/
def AllocUse.ofWrite : AllocUse → Bool
  | .write | .perms _ => true
  | .scan | .notify => false

def useAt (uses : List AllocUse) (o : Option Nat) : Option AllocUse := o.bind (uses[·]?)

theorem useAt_replicate (n : Nat) (use : AllocUse) (o : Option Nat) :
    useAt (List.replicate n use) o = if within n o then some use else none := by
  cases o with
  | none => rfl
  | some k => simp [useAt, within, List.getElem?_replicate]

theorem useAt_append (uses rest : List AllocUse) (o : Option Nat) :
    useAt (uses ++ rest) o =
      if within uses.length o then useAt uses o else useAt rest (behind uses.length o) := by
  cases o with
  | none => rfl
  | some k =>
    by_cases hlt : k < uses.length
    · simp [useAt, within, hlt, List.getElem?_append_left hlt]
    · simp [useAt, within, behind, hlt, List.getElem?_append_right (Nat.le_of_not_lt hlt)]

theorem useAt_cons (use : AllocUse) (uses : List AllocUse) (o : Option Nat) :
    useAt (use :: uses) o = if within 1 o then some use else useAt uses (behind 1 o) := by
  have happ := useAt_append [use] uses o
  rw [List.singleton_append, List.length_singleton] at happ
  rw [happ]
  cases hin : within 1 o with
  | true =>
    have hone := useAt_replicate 1 use o
    rw [hin, if_pos rfl] at hone
    rw [if_pos rfl, if_pos rfl]
    exact hone
  | false => rfl

theorem useAt_isSome (uses : List AllocUse) (o : Option Nat) :
    (useAt uses o).isSome = within uses.length o := by
  cases o with
  | none => rfl
  | some k =>
    by_cases hlt : k < uses.length
    · simp [useAt, within, hlt]
    · simp [useAt, within, hlt]

theorem useAt_eq_none {uses : List AllocUse} {o : Option Nat}
    (h : within uses.length o = false) : useAt uses o = none := by
  rw [← useAt_isSome] at h
  exact Option.not_isSome_iff_eq_none.mp (by rw [h]; exact Bool.false_ne_true)

theorem mem_of_useAt {uses : List AllocUse} {o : Option Nat} {use : AllocUse}
    (h : useAt uses o = some use) : use ∈ uses := by
  cases o with
  | none => cases h
  | some k => exact List.mem_of_getElem? h

def walkAllocs (perms : List XsPermEntry) : List CString → XsEntry → Nat
  | [], _ => 1
  | tok :: toks, t =>
    match t.children.find? tok with
    | some iter => walkAllocs perms toks iter
    | none => 1 + (1 + (perms.length + walkAllocs perms toks ⟨⟨none, []⟩, .nil⟩))

theorem walkAllocs_leaf (perms : List XsPermEntry) (toks : List CString) (n n' : XsNode) :
    walkAllocs perms toks ⟨n, .nil⟩ = walkAllocs perms toks ⟨n', .nil⟩ := by
  cases toks with
  | nil => rfl
  | cons tok toks => rfl

def firstMissing : List CString → XsEntry → List CString
  | [], _ => []
  | tok :: toks, t =>
    match t.children.find? tok with
    | some iter => tok :: firstMissing toks iter
    | none => [tok]

theorem firstMissing_append {p rest : List CString} {k : CString} {t n : XsEntry}
    (hp : t.lookup p = some n) (hk : n.children.find? k = none) :
    firstMissing (p ++ k :: rest) t = p ++ [k] := by
  induction p generalizing t with
  | nil =>
    cases hp
    simp [firstMissing, hk]
  | cons tok p ih =>
    rw [Tree.lookup_cons] at hp
    cases hs : t.children.find? tok with
    | none =>
      rw [hs] at hp
      cases hp
    | some iter =>
      rw [hs] at hp
      rw [List.cons_append, firstMissing, hs]
      exact congrArg (tok :: ·) (ih hp)

/-- What the allocations of the walk are for; `q` is the first node that is not there. What fails
below this node makes the walk drop it again. -/
def walkUses (perms : List XsPermEntry) (q : List CString) : List CString → XsEntry → List AllocUse
  | [], _ => [.write]
  | tok :: toks, t =>
    match t.children.find? tok with
    | some iter => walkUses perms q toks iter
    | none =>
      .write :: .write :: (List.replicate perms.length (.perms q) ++
        List.replicate (walkAllocs perms toks ⟨⟨none, []⟩, .nil⟩) .write)

theorem length_walkUses (perms : List XsPermEntry) (q toks : List CString) (t : XsEntry) :
    (walkUses perms q toks t).length = walkAllocs perms toks t := by
  induction toks generalizing t with
  | nil => rfl
  | cons tok toks ih =>
    rw [walkUses, walkAllocs]
    cases t.children.find? tok with
    | some iter => exact ih iter
    | none =>
      simp only [List.length_cons, List.length_append, List.length_replicate]
      omega

theorem mem_walkUses {perms : List XsPermEntry} {q toks : List CString} {t : XsEntry}
    {use : AllocUse} (h : use ∈ walkUses perms q toks t) : use = .write ∨ use = .perms q := by
  induction toks generalizing t with
  | nil => exact Or.inl (List.mem_singleton.mp h)
  | cons tok toks ih =>
    unfold walkUses at h
    cases hs : t.children.find? tok with
    | some iter =>
      rw [hs] at h
      exact ih h
    | none =>
      simp only [hs, List.mem_cons, List.mem_append, List.mem_replicate] at h
      rcases h with h | h | h | h
      · exact Or.inl h
      · exact Or.inl h
      · exact Or.inr h.2
      · exact Or.inl h.2

section Write
variable {value : CString} {perms : List XsPermEntry} {o : Option Nat}

theorem wp_newEntryPerms_after (hne : perms ≠ []) (parent : XsNode) (domid : UInt32) :
    wp (newEntryPerms perms parent domid) (fun r rest => Took perms.length o r.1.isSome rest)
      (fun _ => False) (failAfter o) := by
  unfold newEntryPerms setPermsByArray
  rw [if_pos hne, wp_bind]
  refine wp_kMallocs_after _ ?_
  cases hfail : within perms.length o with
  | true => exact ⟨hfail.symm, rfl⟩
  | false => exact ⟨hfail.symm, rfl⟩

/-- A walk that finds no memory leaves the tree as it was, unless it lacks the permissions of the
first node it added. -/
theorem wp_writeWalk_after (hne : perms ≠ []) (q toks : List CString) (inserted : Bool)
    (t : XsEntry) :
    wp (writeWalk (some value) 0 perms toks inserted t) (fun r rest =>
      Took (walkAllocs perms toks t) o r.1.isSome rest ∧
      (inserted = false → useAt (walkUses perms q toks t) o = some .write → r.2 = t))
      (fun _ => False) (failAfter o) := by
  induction toks generalizing inserted t o with
  | nil =>
    unfold writeWalk writeValue
    rw [checkPerms_zero]
    simp only [wp_bind, wp_lift_ok, if_true]
    refine wp_kMalloc_after ?_
    cases hfail : within 1 o with
    | true => exact ⟨⟨hfail.symm, rfl⟩, fun _ _ => rfl⟩
    | false =>
      refine ⟨⟨hfail.symm, rfl⟩, fun _ huse => ?_⟩
      rw [walkUses, (useAt_eq_none hfail : useAt [.write] o = none)] at huse
      cases huse
  | cons tok toks ih =>
    unfold writeWalk
    rw [walkAllocs, walkUses]
    cases hs : t.children.find? tok with
    | some iter =>
      simp only [wp_bind]
      refine wp_conseq (ih inserted iter) fun r rest hr => ⟨hr.1, fun hins huse => ?_⟩
      show { t with children := t.children.set tok r.2 } = t
      rw [hr.2 hins huse, Forest.set_find? hs]
    | none =>
      rw [checkPerms_zero]
      simp only [wp_bind, wp_lift_ok, Bool.not_true, Bool.false_eq_true, if_false]
      refine wp_kMalloc_after ?_
      cases h₁ : within 1 o with
      | true => exact ⟨Took.stopped h₁ _, fun _ _ => rfl⟩
      | false =>
        simp only [Bool.not_false, Bool.not_true, Bool.false_eq_true, if_false, wp_bind]
        refine wp_kMalloc_after ?_
        cases h₂ : within 1 (behind 1 o) with
        | true => exact ⟨Took.step h₁ (Took.stopped h₂ _), fun _ _ => rfl⟩
        | false =>
          simp only [Bool.not_false, Bool.not_true, Bool.false_eq_true, if_false, wp_bind]
          refine wp_conseq (wp_newEntryPerms_after hne _ _) fun r rest h₃ => ?_
          obtain ⟨rc, node⟩ := r
          obtain ⟨hrc, rfl⟩ := h₃
          rw [useAt_cons, h₁, if_neg Bool.false_ne_true, useAt_cons, h₂,
            if_neg Bool.false_ne_true, useAt_append, List.length_replicate, useAt_replicate,
            ← hrc]
          cases rc with
          | some e =>
            refine ⟨Took.step h₁ (Took.step h₂ (Took.stopped hrc.symm _)), fun _ huse => ?_⟩
            cases huse
          | none =>
            simp only [wp_bind]
            refine wp_conseq (ih true ⟨node, .nil⟩) fun r rest h₄ => ?_
            have htook := h₄.1
            rw [walkAllocs_leaf perms toks node ⟨none, []⟩] at htook
            have hall := Took.step h₁ (Took.step h₂ (Took.step hrc.symm htook))
            split
            · exact ⟨hall, fun _ _ => rfl⟩
            · rename_i hkeep
              refine ⟨hall, fun hins huse => ?_⟩
              have hdone : r.1.isSome = false := by simpa [hins] using hkeep
              have hin := htook.1
              rw [hdone] at hin
              rw [Option.isSome_none, if_neg Bool.false_ne_true, useAt_replicate, ← hin] at huse
              cases huse

theorem wp_xssDoWriteDeadline_after (hne : perms ≠ []) (q : List CString) {p : List CString}
    (hc : Components p) (hp : p ≠ []) {s : Shared} (hallocs : s.allocs = failAfter o) :
    wp (xssDoWriteDeadline (renderPath p) (some value) 0 perms .forever) (fun rc s' =>
      Took (1 + walkAllocs perms p s.root) o rc.isSome s'.allocs ∧
      (useAt (.write :: walkUses perms q p s.root) o = some .write → s'.root = s.root))
      (fun _ => False) s := by
  unfold xssDoWriteDeadline
  simp only [wp_bind, wp_alloc, hallocs]
  refine wp_kMalloc_after ?_
  cases h₁ : within 1 o with
  | true => exact ⟨Took.stopped h₁ _, fun _ => rfl⟩
  | false =>
    simp only [Bool.not_false, Bool.not_true, Bool.false_eq_true, if_false, wp_bind]
    refine wp_lock fun rc locks hrc => ?_
    obtain rfl : rc = none := hrc.resolve_right (by simp)
    simp only [wp_bind, wp_get, wp_alloc, wp_modify, wp_pure]
    have htree : writeTree (renderPath p) (some value) 0 perms s.root =
        writeWalk (some value) 0 perms p false s.root := by
      rw [writeTree, tokens_renderPath hc]
      cases p with
      | nil => exact absurd rfl hp
      | cons k ks => rfl
    rw [htree, useAt_cons, h₁, if_neg Bool.false_ne_true]
    exact wp_conseq (wp_writeWalk_after hne q p false s.root) fun r rest hr =>
      ⟨Took.step h₁ hr.1, hr.2 rfl⟩

end Write

section Notify
variable {o : Option Nat} {path : CString} {recursiveRemove : Bool}

theorem wp_keyToEntry_after {root : XsEntry} {key : CString}
    {Q : Option EntryRef → List Bool → Prop} {E : Fault → Prop}
    (hfail : within (lookupAllocs key) o = true → Q none [])
    (hok : within (lookupAllocs key) o = false →
      Q (foundEntry root key) (failAfter (behind (lookupAllocs key) o))) :
    wp (keyToEntry root key) Q E (failAfter o) := by
  unfold keyToEntry
  unfold foundEntry at hok
  by_cases hlen : key.length > xenstoreAbsPathMax
  · simpa [lookupAllocs, hlen] using hok
  by_cases hroot : xenstoreIsRootPath key = true
  · simpa [lookupAllocs, hlen, hroot] using hok
  have hone : lookupAllocs key = 1 := by
    rw [lookupAllocs, if_neg hlen, if_neg hroot]
  rw [hone] at hfail hok
  simp only [hlen, hroot, if_false, Bool.false_eq_true, wp_bind] at hok ⊢
  refine wp_kMalloc_after ?_
  cases h : within 1 o with
  | true =>
    rw [behind_of_within h]
    exact hfail h
  | false => exact hok h

theorem wp_keyToEntryCheckPerm_after {root : XsEntry} {key : CString} {domid : UInt32}
    {perms : XsPerm} {Q : Option EntryRef → List Bool → Prop} {E : Fault → Prop}
    (herr : ∀ e, E e) (hfail : within (lookupAllocs key) o = true → Q none [])
    (hok : within (lookupAllocs key) o = false → Q ((foundEntry root key).filter fun e =>
      checkPerms e.entry.label perms domid = .ok true)
        (failAfter (behind (lookupAllocs key) o))) :
    wp (keyToEntryCheckPerm root key domid perms) Q E (failAfter o) := by
  unfold keyToEntryCheckPerm
  rw [wp_bind]
  refine wp_keyToEntry_after hfail fun hin => ?_
  have hq := hok hin
  rw [wp_bind]
  refine wp_lift (fun b hb => ?_) (fun e _ => herr e)
  cases hf : foundEntry root key with
  | none =>
    rw [hf] at hb hq
    cases hb
    exact hq
  | some e =>
    rw [hf] at hb hq
    have hb' : checkPerms e.entry.label perms domid = .ok b := hb
    rw [Option.filter_some, hb'] at hq
    cases b with
    | true => simpa using hq
    | false => simpa using hq

def notifyAllocs (root : XsEntry) (path : CString) (watches : List WatchEntry) : Nat :=
  (watches.map (ownAllocs root path false)).sum

theorem wp_queueWatchLoop_after (iters : List WatchEntry) (localEvents : List Nat) (s : Shared)
    (hallocs : s.allocs = failAfter o) :
    wp (queueWatchLoop path recursiveRemove .forever iters localEvents)
      (fun _ s' => s'.allocs =
        failAfter (behind (iters.map (ownAllocs s.root path recursiveRemove)).sum o))
      (fun _ => True) s := by
  induction iters generalizing localEvents s o with
  | nil =>
    rw [List.map_nil, List.sum_nil, behind_zero]
    exact hallocs
  | cons w iters ih =>
    -- Behind the failure nothing is left to fail.
    have hspent (localEvents : List Nat) (s₁ : Shared) (hs₁ : s₁.allocs = [])
        (hfail : within (ownAllocs s.root path recursiveRemove w) o = true) :
        wp (queueWatchLoop path recursiveRemove .forever iters localEvents)
          (fun _ s' => s'.allocs = failAfter
            (behind ((w :: iters).map (ownAllocs s.root path recursiveRemove)).sum o))
          (fun _ => True) s₁ := by
      refine wp_conseq (draws_queueWatchLoop path recursiveRemove .forever iters localEvents s₁)
        fun _ s' hs' => ?_
      rw [hs₁] at hs'
      rw [List.map_cons, List.sum_cons, behind_add, behind_of_within hfail]
      exact List.suffix_nil.mp hs'
    have hnext (localEvents : List Nat) (s₁ : Shared) (hroot : s₁.root = s.root)
        (hs₁ : s₁.allocs = failAfter (behind (ownAllocs s.root path recursiveRemove w) o)) :
        wp (queueWatchLoop path recursiveRemove .forever iters localEvents)
          (fun _ s' => s'.allocs = failAfter
            (behind ((w :: iters).map (ownAllocs s.root path recursiveRemove)).sum o))
          (fun _ => True) s₁ := by
      refine wp_conseq (ih localEvents s₁ hs₁) fun _ s' hs' => ?_
      rw [hs', hroot, List.map_cons, List.sum_cons, behind_add]
    unfold queueWatchLoop
    cases hev : watchEventPath w path recursiveRemove with
    | none =>
      have hown : ownAllocs s.root path recursiveRemove w = 0 := by simp [ownAllocs, hev]
      refine hnext localEvents s rfl ?_
      rw [hown, behind_zero]
      exact hallocs
    | some eventPath =>
      have hq := @queuedPath_of_filter s.root path recursiveRemove w eventPath hev
      have hown := @ownAllocs_of_some s.root path recursiveRemove w eventPath hev
      simp only [wp_bind, wp_get, wp_alloc, hallocs]
      refine wp_keyToEntryCheckPerm_after (fun _ => trivial) (fun hfail => ?_) fun hlook => ?_
      · refine hspent localEvents _ rfl ?_
        rw [hown, within_add, hfail, Bool.true_or]
      cases hf : (foundEntry s.root eventPath).filter fun e =>
          checkPerms e.entry.label .read (w.domain.getD 0) = .ok true with
      | none =>
        rw [hf, Option.map_none] at hq
        refine hnext localEvents _ rfl ?_
        rw [hown, hq, Option.isSome_none, if_neg Bool.false_ne_true, Nat.add_zero]
      | some e =>
        rw [hf, Option.map_some] at hq
        rw [hq, Option.isSome_some, if_pos rfl] at hown
        cases hd : w.domain with
        | none =>
          have hone : eventAllocs w = 1 := by simp [eventAllocs, hd]
          rw [hone] at hown
          refine wp_ite (fun _ => trivial) (fun _ => ?_)
          unfold queueLocalWatchEventLocked
          simp only [hd, Option.isSome_none, Bool.false_eq_true, if_false, wp_bind, wp_alloc]
          refine wp_kMalloc_after ?_
          cases hfail : within 1 (behind (lookupAllocs eventPath) o) with
          | true =>
            simp only [Bool.not_true, Bool.not_false, if_true, wp_pure]
            refine hspent localEvents _ ?_ ?_
            · rw [behind_of_within hfail]
              rfl
            · rw [hown, within_add, hfail, Bool.or_true]
          | false =>
            simp only [Bool.not_false, Bool.not_true, Bool.false_eq_true, if_false]
            refine wp_ite (fun _ => trivial) (fun _ => ?_)
            simp only [wp_bind, wp_modify, wp_pure]
            refine hnext _ _ rfl ?_
            rw [hown, behind_add]
            rfl
        | some domid =>
          have htwo : eventAllocs w = 1 + 1 := by simp [eventAllocs, hd]
          rw [htwo] at hown
          unfold queuePendingWatchEvent
          simp only [wp_bind, wp_alloc]
          have hstop (hfail : within (ownAllocs s.root path recursiveRemove w) o = true) :
              [] = failAfter
                (behind ((w :: iters).map (ownAllocs s.root path recursiveRemove)).sum o) := by
            rw [List.map_cons, List.sum_cons, behind_add, behind_of_within hfail]
            rfl
          refine wp_kMalloc_after ?_
          cases hfail : within 1 (behind (lookupAllocs eventPath) o) with
          | true =>
            simp only [Bool.not_true, Bool.not_false, if_true, wp_pure]
            rw [behind_of_within hfail]
            refine hstop ?_
            rw [hown, within_add, within_add, hfail, Bool.true_or, Bool.or_true]
          | false =>
            simp only [Bool.not_false, Bool.not_true, Bool.false_eq_true, if_false, wp_bind,
              wp_alloc]
            refine wp_kMalloc_after ?_
            cases hfail₂ : within 1 (behind 1 (behind (lookupAllocs eventPath) o)) with
            | true =>
              simp only [Bool.not_true, Bool.not_false, if_true, wp_pure]
              rw [behind_of_within hfail₂]
              refine hstop ?_
              rw [hown, within_add, within_add, hfail₂, Bool.or_true, Bool.or_true]
            | false =>
              simp only [Bool.not_false, Bool.not_true, Bool.false_eq_true, if_false, wp_bind]
              refine wp_lock fun rc locks hrc => ?_
              obtain rfl : rc = none := hrc.resolve_right (by simp)
              simp only [wp_bind, wp_modify, wp_pure]
              refine hnext _ _ rfl ?_
              rw [hown, behind_add, behind_add]

theorem wp_dispatch_allocs (ids : List Nat) (s : Shared) :
    wp (dispatchLocalWatchEventsLocked ids) (fun _ s' => s'.allocs = s.allocs) (fun _ => True)
      s := by
  induction ids generalizing s with
  | nil => exact rfl
  | cons id ids ih =>
    unfold dispatchLocalWatchEventsLocked dispatchLocalWatchEvent
    rw [wp_bind, wp_modify]
    exact ih _

theorem wp_notifyWatchers_after (s : Shared) (hallocs : s.allocs = failAfter o) :
    wp (notifyWatchers path) (fun _ s' => s'.allocs =
      failAfter (behind (notifyAllocs s.root path (linkedWatches s)) o)) (fun _ => True) s := by
  unfold notifyWatchers notifyWatchersDeadline notifyWatchersLocked
    queueWatchNotificationsXselLocked
  simp only [wp_bind, wp_pure]
  refine wp_lock fun rc locks₁ hrc => ?_
  obtain rfl : rc = none := hrc.resolve_right (by simp)
  simp only [wp_bind]
  refine wp_lock fun rc locks₂ hrc => ?_
  obtain rfl : rc = none := hrc.resolve_right (by simp)
  simp only [wp_bind]
  refine wp_lock fun rc locks₃ hrc => ?_
  obtain rfl : rc = none := hrc.resolve_right (by simp)
  simp only [wp_bind, wp_get]
  refine wp_conseq (wp_queueWatchLoop_after _ [] _ hallocs) fun r s₁ h₁ => ?_
  refine wp_conseq (wp_dispatch_allocs r.2 s₁) fun _ s₂ h₂ => ?_
  rw [h₂, h₁]
  rfl

end Notify

def NodeWrite.planted (w : NodeWrite) (domid : UInt32) (t : XsEntry) : XsEntry :=
  t.plant (freshNode (w.perms domid)) (updNode (some w.value)) w.path

/-- What the allocations of one write are for, but for its notification. -/
def NodeWrite.uses (w : NodeWrite) (domid : UInt32) (t : XsEntry) : List AllocUse :=
  .write :: walkUses (w.perms domid) (firstMissing w.path t) w.path t

/-- What the allocations of the writes are for, as long as they succeed. -/
def writeUses (domid : UInt32) (watches : List WatchEntry) :
    List NodeWrite → XsEntry → List AllocUse
  | [], _ => []
  | w :: ws, t =>
    w.uses domid t ++
      (List.replicate (notifyAllocs (w.planted domid t) (renderPath w.path) watches) .notify ++
        writeUses domid watches ws (w.planted domid t))

/-- Only the node whose permissions found no memory is without permissions. -/
def BareOnly (use : Option AllocUse) (t : XsEntry) : Prop :=
  ∀ p n, t.node p = some n → n.perms = [] → use = some (.perms p)

theorem WellFormed.bare {t : XsEntry} (h : WellFormed t) (use : Option AllocUse) :
    BareOnly use t := by
  intro p n hn hperms
  obtain ⟨e, he, rfl⟩ := Option.map_eq_some_iff.mp hn
  exact absurd hperms (h.permsOk.lookup he).1

section Writes
variable {domid : UInt32} {o : Option Nat} {s : Shared}

theorem NodeWrite.perms_ne_nil (w : NodeWrite) (domid : UInt32) : w.perms domid ≠ [] := by
  unfold NodeWrite.perms
  split
  · exact List.cons_ne_nil _ _
  · split <;> exact List.cons_ne_nil _ _
  · exact List.cons_ne_nil _ _

theorem NodeWrite.length_uses (w : NodeWrite) (domid : UInt32) (t : XsEntry) :
    (w.uses domid t).length = 1 + walkAllocs (w.perms domid) w.path t := by
  rw [uses, List.length_cons, length_walkUses, Nat.add_comm]

theorem NodeWrite.ofWrite_of_mem {w : NodeWrite} {t : XsEntry} {use : AllocUse}
    (h : use ∈ w.uses domid t) : use = .write ∨ use = .perms (firstMissing w.path t) := by
  rcases List.mem_cons.mp h with h | h
  · exact Or.inl h
  · exact mem_walkUses h

theorem Wrote.bare {p : List CString} {data : Option CString} {perms : List XsPermEntry}
    {e : Errno} {root : XsEntry} {use : Option AllocUse} (hwf : WellFormed s.root)
    (hc : Components p) (h : Wrote (renderPath p) data 0 perms s (some e) root)
    (hkept : use = some .write → root = s.root)
    (huse : use = some .write ∨ use = some (.perms (firstMissing p s.root))) :
    BareOnly use root := by
  rcases huse with huse | huse
  · rw [hkept huse]
    exact hwf.bare use
  rcases h with ⟨_, hrc, _⟩ | h
  · cases hrc
  rw [tokens_renderPath hc] at h
  cases h with
  | refused => exact hwf.bare use
  | dropped h => cases h
  | leftover q rest k n _ htoks hq hk _ =>
    intro r m hm hperms
    rw [@Tree.node_plant CString XsNode _ (fun _ => ⟨none, []⟩) id (fun _ => rfl)] at hm
    cases hr : s.root.node r with
    | some m' =>
      simp only [hr, id_eq, ite_self, Option.some.injEq] at hm
      subst hm
      exact absurd (hwf.bare none r m' hr hperms) (Option.some_ne_none _).symm
    | none =>
      simp only [hr] at hm
      split at hm
      · rename_i hpre
        rw [huse, htoks, firstMissing_append hq hk]
        rcases List.prefix_concat_iff.mp hpre with rfl | ⟨rest', rfl⟩
        · rfl
        · rw [Tree.lookup_append, lookup_eq_none_iff.mpr hr] at hq
          cases hq
      · cases hm

/-- A failure in the write itself makes it fail, one in its notification does not. -/
theorem wp_nodeWrite_after {w : NodeWrite} (hw : NodeOk domid w) (hwf : WellFormed s.root)
    (hallocs : s.allocs = failAfter o) :
    wp (w.run domid) (fun rc s' =>
      rc.isSome = within (w.uses domid s.root).length o ∧
      s'.allocs = failAfter (behind ((w.uses domid s.root).length +
        notifyAllocs (w.planted domid s.root) (renderPath w.path) (linkedWatches s)) o) ∧
      (rc.isSome → BareOnly (useAt (w.uses domid s.root) o) s'.root)) (fun _ => True) s := by
  have hne := hw.ofDomain.ne_nil
  rw [NodeWrite.run_eq, NodeWrite.length_uses]
  unfold xssWriteWith
  rw [wp_bind]
  have hwrite : wp (xssDoWriteDeadline (renderPath w.path) (some w.value) 0 (w.perms domid)
      .forever)
      (fun rc s₁ => s₁.watches = s.watches ∧
        Wrote (renderPath w.path) (some w.value) 0 (w.perms domid) s rc s₁.root)
      (fun _ => False) s :=
    wp_xssDoWriteDeadline (fun rc root rest locks _ hw => ⟨rfl, hw⟩) (fun h => h hwf.permsOk)
  refine wp_mono (wp_and (wp_xssDoWriteDeadline_after (w.perms_ne_nil domid)
    (firstMissing w.path s.root) hw.components hne hallocs) hwrite) (fun rc s₁ h => ?_)
    (fun _ _ => trivial)
  obtain ⟨⟨⟨hrc, hrest⟩, hkept⟩, hwatches, hwrote⟩ := h
  cases rc with
  | some e =>
    refine ⟨hrc, ?_, fun _ => ?_⟩
    · rw [hrest, behind_add (1 + _), behind_of_within hrc.symm]
      rfl
    · have hsome : (useAt (w.uses domid s.root) o).isSome = true := by
        rw [useAt_isSome, NodeWrite.length_uses, ← hrc]
        rfl
      obtain ⟨use, huse⟩ := Option.isSome_iff_exists.mp hsome
      refine hwrote.bare hwf hw.components hkept ?_
      show useAt (w.uses domid s.root) o = _ ∨ useAt (w.uses domid s.root) o = _
      rw [huse, Option.some.injEq, Option.some.injEq]
      exact NodeWrite.ofWrite_of_mem (mem_of_useAt huse)
  | none =>
    rw [wp_bind]
    refine wp_conseq (wp_notifyWatchers_after s₁ hrest) fun _ s₂ h₂ => ?_
    refine ⟨hrc, ?_, fun h => by cases h⟩
    have hlinked : linkedWatches s₁ = linkedWatches s := by
      rw [linkedWatches, hwatches]
      rfl
    rw [h₂, hlinked, hwrote.planted hw.components hne, ← behind_add]
    rfl

theorem wp_writeNodes_after (ws : List NodeWrite) (hws : ∀ w ∈ ws, NodeOk domid w)
    {t : XsEntry} (hq : Quiet s) (hwf : WellFormed s.root) (hg : Grown domid t s.root)
    (hallocs : s.allocs = failAfter o) :
    wp (writeNodes domid ws) (fun rc s' =>
      rc.isSome = (useAt (writeUses domid (linkedWatches s) ws s.root) o).any AllocUse.ofWrite ∧
      s'.allocs = failAfter (behind (writeUses domid (linkedWatches s) ws s.root).length o) ∧
      (rc.isSome → BareOnly (useAt (writeUses domid (linkedWatches s) ws s.root) o) s'.root))
      (fun _ => False) s := by
  induction ws generalizing s o with
  | nil =>
    refine ⟨?_, ?_, fun h => by cases h⟩
    · cases o <;> rfl
    · rw [writeUses, List.length_nil, behind_zero]
      exact hallocs
  | cons w ws ih =>
    have hw := hws w List.mem_cons_self
    unfold writeNodes
    rw [wp_bind]
    refine wp_mono (wp_and (wp_nodeWrite hq hwf hg hw.components hw.ofDomain)
      (wp_nodeWrite_after hw hwf hallocs)) (fun rc s₁ h => ?_) (fun _ h => h.1)
    obtain ⟨⟨-, hu, hg₁, hroot⟩, hrc, hrest, hbare⟩ := h
    rw [writeUses, useAt_append, ← hrc]
    generalize htold : notifyAllocs (w.planted domid s.root) (renderPath w.path)
      (linkedWatches s) = told at *
    cases rc with
    | some e =>
      refine ⟨?_, ?_, fun _ => hbare rfl⟩
      · have hsome : (useAt (w.uses domid s.root) o).isSome = true := by
          rw [useAt_isSome, ← hrc]
          rfl
        obtain ⟨use, huse⟩ := Option.isSome_iff_exists.mp hsome
        rw [Option.isSome_some, if_pos rfl, huse]
        rcases NodeWrite.ofWrite_of_mem (mem_of_useAt huse) with rfl | rfl
        · rfl
        · rfl
      · rw [hrest, behind_add, List.length_append, behind_add, behind_of_within hrc.symm]
        rfl
    | none =>
      have hroot := hroot rfl
      have hwf₁ : WellFormed s₁.root := by
        rw [hroot]
        exact hwf.plant hw.components (fun n hn => freshNode_perms_ne_nil hn)
          (fun n hn => by rwa [updNode_perms])
      have hlinked : linkedWatches s₁ = linkedWatches s := by
        rw [linkedWatches, hu.watches]
        rfl
      refine wp_conseq (ih (fun v hv => hws v (List.mem_cons_of_mem _ hv)) (hq.undisturbed hu)
        hwf₁ hg₁ hrest) fun rc s₂ h₂ => ?_
      rw [hlinked, hroot, behind_add] at h₂
      obtain ⟨hrc₂, hrest₂, hbare₂⟩ := h₂
      rw [Option.isSome_none, if_neg Bool.false_ne_true, useAt_append, List.length_replicate,
        useAt_replicate]
      refine ⟨?_, ?_, ?_⟩
      · rw [hrc₂]
        cases hin : within told (behind (w.uses domid s.root).length o) with
        | true =>
          rw [behind_of_within hin]
          rfl
        | false => rfl
      · rw [hrest₂, List.length_append, List.length_append, List.length_replicate, behind_add,
          behind_add]
        rfl
      · intro hsome
        have hb := hbare₂ hsome
        cases hin : within told (behind (w.uses domid s.root).length o) with
        | true =>
          rw [hrc₂, behind_of_within hin] at hsome
          cases hsome
        | false => exact hb

end Writes

def hasName (root : XsEntry) (name : CString) (domain : UInt16) : Bool :=
  (root.lookup (namePath domain)).any fun e =>
    decide ((e.label.value.getD []).take containerNameSize = name.take containerNameSize)

/-- The domains the scan looks at. -/
def scanned (root : XsEntry) (name : CString) : List UInt16 → Nat
  | [] => 0
  | domain :: rest => if hasName root name domain then 1 else 1 + scanned root name rest

section Scan
variable {o : Option Nat} {s : Shared} {name : CString}

theorem wp_nameMatches_after (domain : UInt16) (hallocs : s.allocs = failAfter o) :
    wp (nameMatches name domain) (fun same s' =>
      same = (!within 1 o && hasName s.root name domain) ∧
        s' = { s with allocs := failAfter (behind 1 o) }) (fun _ => False) s := by
  have hr := removable_namePath domain
  have hhead : s.allocs.headD true = !within 1 o := by
    rw [hallocs]
    cases o with
    | none => rfl
    | some k => cases k <;> rfl
  have htail : s.allocs.tail = failAfter (behind 1 o) := by
    rw [hallocs]
    cases o with
    | none => rfl
    | some k => cases k <;> rfl
  unfold nameMatches xssRead
  rw [namePath_eq]
  simp only [wp_bind, wp_get, wp_alloc]
  refine wp_keyToEntryCheckPerm_zero hr.components hr.ne_nil hr.length (fun e he hok => ?_)
    (fun hnone => ?_)
  · rw [htail]
    refine ⟨?_, rfl⟩
    rw [← hhead, hok, hasName, he]
    rfl
  · rw [htail]
    refine ⟨?_, rfl⟩
    rcases hnone with hnone | hfail
    · rw [hasName, hnone]
      exact (Bool.and_false _).symm
    · rw [← hhead, hfail]
      rfl

theorem wp_findNameLoop_after (infos : List UInt16) (hallocs : s.allocs = failAfter o) :
    wp (findNameLoop name infos) (fun _ s' =>
      s' = { s with allocs := failAfter (behind (scanned s.root name infos) o) })
      (fun _ => False) s := by
  induction infos generalizing s o with
  | nil =>
    show s = _
    rw [scanned, behind_zero, ← hallocs]
  | cons domain rest ih =>
    rw [findNameLoop_cons, wp_bind]
    refine wp_conseq (wp_nameMatches_after domain hallocs) fun same s₁ h₁ => ?_
    obtain ⟨rfl, rfl⟩ := h₁
    cases hfail : within 1 o with
    | true =>
      refine wp_conseq (@ih none _ (by rw [behind_of_within hfail])) fun _ s₂ hs₂ => ?_
      rw [hs₂, scanned]
      split
      · rw [behind_of_within hfail]
        rfl
      · rw [behind_add, behind_of_within hfail]
    | false =>
      rw [scanned]
      cases hname : hasName s.root name domain with
      | true => exact rfl
      | false =>
        refine wp_conseq (@ih (behind 1 o) _ rfl) fun _ s₂ hs₂ => ?_
        rw [hs₂, ← behind_add]
        rfl

end Scan

end Xenlib
