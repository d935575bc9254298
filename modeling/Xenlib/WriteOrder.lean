import Xenlib.Answers
import Xenlib.Lib.Plant

/-!
Two writes of guests, in either order. A node that a write creates has the permissions of the
nearest node that was there, so that neither write changes what the other one may do.
-/

set_option autoImplicit false

namespace Xenlib

open Wp Keyed

theorem grants_congr {node node' : XsNode} (h : node.perms = node'.perms) (domid : UInt32) :
    Grants node domid ↔ Grants node' domid := by
  unfold Grants
  rw [checkPerms_congr h]

/-- A write asks for the right to write at the nearest node that exists. One without data to a
node that exists asks for nothing. -/
def Permitted (data : Option CString) (domid : UInt32) (toks : List CString) (t : XsEntry) : Prop :=
  data ≠ none ∨ t.lookup toks = none → Grants (t.anchor toks) domid

section Permitted

variable {data : Option CString} {domid : UInt32}

theorem permitted_cons_some {tok : CString} {toks : List CString} {t s : XsEntry}
    (h : t.children.find? tok = some s) :
    Permitted data domid (tok :: toks) t ↔ Permitted data domid toks s := by
  simp [Permitted, Tree.lookup_cons, Tree.anchor, h]

theorem permitted_cons_none {tok : CString} {toks : List CString} {t : XsEntry}
    (h : t.children.find? tok = none) :
    Permitted data domid (tok :: toks) t ↔ Grants t.label domid := by
  simp [Permitted, Tree.lookup_cons, Tree.anchor, h]

theorem permitted_fresh {toks : List CString} {parent : XsNode} (h : Grants parent domid) :
    Permitted data domid toks ⟨freshNode [] parent, .nil⟩ := by
  intro _
  have hanchor : (⟨freshNode [] parent, .nil⟩ : XsEntry).anchor toks = freshNode [] parent := by
    cases toks <;> rfl
  rw [hanchor]
  exact (grants_congr rfl domid).mpr h

/-- The reply of a write, exactly. -/
theorem wp_writeWalk_permitted (toks : List CString) (inserted : Bool) {t : XsEntry}
    (hok : PermsOk t) :
    wp (writeWalk data domid [] toks inserted t)
      (fun r rest => rest = [] ∧ (Permitted data domid toks t → r.1 = none) ∧
        (¬ Permitted data domid toks t → r.1 = some .eacces))
      (fun _ => False) [] := by
  induction toks generalizing inserted t with
  | nil =>
    unfold writeWalk writeValue
    cases data with
    | none => exact ⟨rfl, fun _ => rfl, fun h => absurd (fun hnew => by simp at hnew) h⟩
    | some value =>
      obtain ⟨granted, hgranted⟩ := checkPerms_ok hok.1 .write domid
      have hiff : Permitted (some value) domid [] t ↔ granted = true := by
        simp [Permitted, Tree.anchor, Grants, hgranted]
      simp only [wp_bind, hgranted, wp_lift_ok, hiff]
      cases granted with
      | false => exact ⟨rfl, fun h => absurd h Bool.false_ne_true, fun _ => rfl⟩
      | true => exact ⟨rfl, fun _ => rfl, fun h => absurd rfl h⟩
  | cons tok toks ih =>
    unfold writeWalk
    cases hf : t.children.find? tok with
    | some s =>
      simp only [wp_bind, permitted_cons_some hf]
      exact ih inserted (hok.find? hf)
    | none =>
      obtain ⟨granted, hgranted⟩ := checkPerms_ok hok.1 .write domid
      have hiff : Permitted data domid (tok :: toks) t ↔ granted = true := by
        rw [permitted_cons_none hf, Grants, hgranted]
        simp
      simp only [wp_bind, hgranted, wp_lift_ok, hiff]
      cases granted with
      | false => exact ⟨rfl, fun h => absurd h Bool.false_ne_true, fun _ => rfl⟩
      | true =>
        simp only [Bool.not_true, Bool.false_eq_true, if_false, wp_bind]
        refine wp_kMalloc_drawn fun b rest hd => ?_
        obtain rfl := List.suffix_nil.mp hd.suffix
        cases b with
        | false => exact absurd (hd.fail rfl) (by simp)
        | true =>
          simp only [Bool.not_true, Bool.false_eq_true, if_false, wp_bind]
          refine wp_kMalloc_drawn fun b rest hd => ?_
          obtain rfl := List.suffix_nil.mp hd.suffix
          cases b with
          | false => exact absurd (hd.fail rfl) (by simp)
          | true =>
            simp only [Bool.not_true, Bool.false_eq_true, if_false, wp_bind]
            refine wp_newEntryPerms (fun rest hrest => ?_) fun _ _ hfail => absurd hfail (by simp)
            obtain rfl := List.suffix_nil.mp hrest
            simp only [wp_bind]
            have hfresh : PermsOk ⟨freshNode [] t.label, .nil⟩ :=
              ⟨freshNode_perms_ne_nil hok.1, trivial⟩
            refine wp_conseq (ih true hfresh) ?_
            rintro ⟨rc, iter⟩ rest ⟨hrest, hrc, -⟩
            obtain rfl : rc = none := hrc (permitted_fresh hgranted)
            exact ⟨hrest, fun _ => rfl, fun h => absurd trivial h⟩

end Permitted

/-- The tree after a write without permissions of its own. A path without components writes
nothing. -/
noncomputable def writtenTree (data : Option CString) (domid : UInt32) (toks : List CString)
    (t : XsEntry) : XsEntry :=
  open Classical in
  if toks ≠ [] ∧ Permitted data domid toks t then t.plant (freshNode []) (updNode data) toks else t

theorem wp_writeTree_permitted {path : CString} {data : Option CString} {domid : UInt32}
    {root : XsEntry} (hok : PermsOk root) :
    wp (writeTree path data domid [] root)
      (fun r rest => rest = [] ∧ r.2 = writtenTree data domid (tokens path) root ∧
        (r.1 = none ↔ tokens path = [] ∨ Permitted data domid (tokens path) root) ∧
        (r.1 ≠ none → r.1 = some .eacces))
      (fun _ => False) [] := by
  unfold writeTree
  cases htoks : tokens path with
  | nil => simp [writtenTree]
  | cons tok toks =>
    simp only [writtenTree, ne_eq, reduceCtorEq, not_false_eq_true, true_and, false_or]
    have hboth := wp_and (wp_writeWalk_permitted (tok :: toks) false hok)
      (@wp_writeWalk data domid [] (tok :: toks) false root [])
    refine wp_mono hboth ?_ fun _ he => he.1
    rintro ⟨rc, t'⟩ rest ⟨⟨hrest, hpos, hneg⟩, -, hout⟩
    by_cases hp : Permitted data domid (tok :: toks) root
    · obtain rfl : rc = none := hpos hp
      have ht : t' = root.plant (freshNode []) (updNode data) (tok :: toks) := by
        cases hout
        rfl
      exact ⟨hrest, ht.trans (if_pos ⟨by simp, hp⟩).symm, by simp [hp], by simp⟩
    · obtain rfl : rc = some .eacces := hneg hp
      -- nothing was inserted, so an error leaves the tree as it was
      cases hout with
      | refused e hmem => simp [hrest, hp]
      | dropped hin => cases hin

theorem freshNode_nil_perms (node : XsNode) : (freshNode [] node).perms = node.perms := rfl

theorem freshNode_nil_congr {node node' : XsNode} (h : node.perms = node'.perms) :
    freshNode [] node = freshNode [] node' := by
  simp [freshNode, h]

section Effect

variable {data data' : Option CString} {domid domid' : UInt32} {toks toks' : List CString}
  {t : XsEntry}

theorem anchor_writtenTree_perms (q : List CString) :
    ((writtenTree data domid toks t).anchor q).perms = (t.anchor q).perms := by
  unfold writtenTree
  split
  · exact Tree.anchor_plant freshNode_nil_perms (fun a => updNode_perms data a) toks q t
  · rfl

theorem writtenTree_of_not_grants (h : ¬ Grants (t.anchor toks) domid) :
    writtenTree data domid toks t = t := by
  unfold writtenTree
  split
  · case _ hp =>
    have hnot : ¬ (data ≠ none ∨ t.lookup toks = none) := fun hask => h (hp.2 hask)
    have hdata : data = none := by
      by_contra hd
      exact hnot (.inl hd)
    have hsome : (t.lookup toks).isSome := by
      rw [Option.isSome_iff_ne_none]
      exact fun hn => hnot (.inr hn)
    subst hdata
    exact Tree.plant_id hsome
  · rfl

theorem writtenTree_of_grants (h : Grants (t.anchor toks) domid) (htoks : toks ≠ []) :
    writtenTree data domid toks t = t.plant (freshNode []) (updNode data) toks :=
  if_pos ⟨htoks, fun _ => h⟩

theorem grants_writtenTree (q : List CString) :
    Grants ((writtenTree data domid toks t).anchor q) domid' ↔ Grants (t.anchor q) domid' :=
  grants_congr (anchor_writtenTree_perms q) domid'

theorem node_writtenTree_comm (hne : toks ≠ toks') (q : List CString) :
    (writtenTree data' domid' toks' (writtenTree data domid toks t)).node q =
      (writtenTree data domid toks (writtenTree data' domid' toks' t)).node q := by
  have hnil : ∀ (data : Option CString) (domid : UInt32) (t : XsEntry),
      writtenTree data domid [] t = t := fun _ _ _ => if_neg (by simp)
  by_cases htoks : toks = []
  · subst htoks
    rw [hnil, hnil]
  by_cases htoks' : toks' = []
  · subst htoks'
    rw [hnil, hnil]
  by_cases hg : Grants (t.anchor toks) domid
  · by_cases hg' : Grants (t.anchor toks') domid'
    · rw [writtenTree_of_grants ((grants_writtenTree toks').mpr hg') htoks',
        writtenTree_of_grants ((grants_writtenTree toks).mpr hg) htoks,
        writtenTree_of_grants hg htoks, writtenTree_of_grants hg' htoks']
      exact Tree.node_plant_comm freshNode_nil_perms (freshNode_idem [])
        (fun _ _ h => freshNode_nil_congr h) (fun a => updNode_perms data a)
        (fun a => updNode_perms data' a) hne t q
    · rw [writtenTree_of_not_grants (mt (grants_writtenTree toks').mp hg'),
        writtenTree_of_not_grants hg']
  · rw [writtenTree_of_not_grants hg,
      writtenTree_of_not_grants (mt (grants_writtenTree toks).mp hg)]

/-- With data, a write is allowed after another one exactly when it was allowed before. -/
theorem permitted_writtenTree (hdata : data' ≠ none) :
    Permitted data' domid' toks' (writtenTree data domid toks t) ↔
      Permitted data' domid' toks' t := by
  simp only [Permitted, hdata, ne_eq, not_false_eq_true, true_or, forall_const]
  exact grants_writtenTree toks'

end Effect

/-- `_handle_write` up to the reply: the path that was written, or the error. -/
def writeRequest (domid : UInt32) (payload : Bytes) : SrvM (Except Errno CString) := do
  let text ← Wp.lift (readStr payload)
  let pathLen := xenstoreStrByteSize (some text)
  if payload.length < pathLen then pure (.error .einval)
  else match ← alloc (constructPath text domid) with
    | .error e => pure (.error e)
    | .ok path =>
      match ← alloc (constructData payload pathLen) with
      | .error e => pure (.error e)
      | .ok data =>
        match ← xssDoWriteDeadline path data domid [] .forever with
        | some e => pure (.error e)
        | none => pure (.ok path)

theorem handleWriteAs_eq (msgType : XsdSockmsgType) (x : Xenstore) (id : UInt32)
    (payload : Bytes) :
    handleWriteAs msgType x id payload = (do
      match ← writeRequest x.domid payload with
      | .error e => sendErrno x id e
      | .ok path =>
        let x ← sendReply x id msgType okText
        notifyWatchers path
        pure x) := by
  unfold handleWriteAs writeRequest
  rw [bind_assoc]
  refine congrArg _ (funext fun text => ?_)
  by_cases hlen : payload.length < xenstoreStrByteSize (some text)
  · simp only [if_pos hlen, pure_bind]
  simp only [if_neg hlen]
  rw [bind_assoc]
  refine congrArg _ (funext fun r => ?_)
  cases r with
  | error e => rw [pure_bind]
  | ok path =>
    simp only
    rw [bind_assoc]
    refine congrArg _ (funext fun r => ?_)
    cases r with
    | error e => rw [pure_bind]
    | ok data =>
      simp only
      rw [bind_assoc]
      refine congrArg _ (funext fun rc => ?_)
      cases rc <;> rw [pure_bind]

def writeArguments (domid : UInt32) (payload : Bytes) : Option (CString × Option CString) :=
  match readStr payload with
  | .error _ => none
  | .ok text =>
    if payload.length < xenstoreStrByteSize (some text) then none
    else
      match resolvePath text domid with
      | .error _ => none
      | .ok path => some (path, payloadData payload (xenstoreStrByteSize (some text)))

theorem wp_xssDoWriteDeadline_permitted {path : CString} {data : Option CString} {domid : UInt32}
    {s : Shared} (hok : PermsOk s.root) (hallocs : s.allocs = []) :
    wp (xssDoWriteDeadline path data domid [] .forever)
      (fun rc s' => s' = { s with root := writtenTree data domid (tokens path) s.root } ∧
        (rc = none ↔ tokens path = [] ∨ Permitted data domid (tokens path) s.root) ∧
        (rc ≠ none → rc = some .eacces))
      (fun _ => False) s := by
  unfold xssDoWriteDeadline
  simp only [wp_bind, wp_alloc]
  refine wp_kMalloc_drawn fun b rest hd => ?_
  rw [hallocs] at hd
  obtain rfl := List.suffix_nil.mp hd.suffix
  cases b with
  | false => exact absurd (hd.fail rfl) (by simp)
  | true =>
    simp only [Bool.not_true, Bool.false_eq_true, if_false, wp_bind]
    refine wp_of_ok (show xssMutexLockDeadline .forever _ = .ok (none, _) from rfl) ?_
    simp only [wp_bind, wp_get, wp_alloc, wp_modify, wp_pure]
    refine wp_conseq (wp_writeTree_permitted hok) ?_
    rintro ⟨rc, root⟩ rest ⟨rfl, rfl, hrc⟩
    refine ⟨?_, hrc⟩
    rw [← hallocs]

theorem wp_writeRequest {domid : UInt32} {payload : Bytes} {path : CString} {data : Option CString}
    {s : Shared} (hok : PermsOk s.root) (hallocs : s.allocs = [])
    (hargs : writeArguments domid payload = some (path, data)) :
    wp (writeRequest domid payload)
      (fun r s' => s' = { s with root := writtenTree data domid (tokens path) s.root } ∧
        (r = .ok path ∧ (tokens path = [] ∨ Permitted data domid (tokens path) s.root) ∨
          r = .error .eacces ∧ ¬ (tokens path = [] ∨ Permitted data domid (tokens path) s.root)))
      (fun _ => False) s := by
  unfold writeArguments at hargs
  unfold writeRequest
  cases htext : readStr payload with
  | error e => simp [htext] at hargs
  | ok text =>
    simp only [htext] at hargs
    by_cases hlen : payload.length < xenstoreStrByteSize (some text)
    · simp [hlen] at hargs
    rw [if_neg hlen] at hargs
    cases hpath : resolvePath text domid with
    | error e => simp [hpath] at hargs
    | ok path' =>
      simp only [hpath, Option.some.injEq, Prod.mk.injEq] at hargs
      obtain ⟨rfl, rfl⟩ := hargs
      simp only [wp_bind, wp_lift_ok, if_neg hlen]
      refine wp_of_ok (alloc_nil hallocs (constructPath_nil text domid)) ?_
      rw [hpath]
      simp only [wp_bind]
      refine wp_of_ok (alloc_nil hallocs (constructData_nil payload _)) ?_
      simp only [wp_bind]
      refine wp_conseq (wp_xssDoWriteDeadline_permitted hok hallocs) ?_
      rintro rc s' ⟨hs', hnone, hsome⟩
      cases rc with
      | none => exact ⟨hs', .inl ⟨rfl, hnone.mp rfl⟩⟩
      | some e =>
        have he : e = .eacces := by simpa using hsome
        exact ⟨hs', .inr ⟨by rw [he], fun h => by simpa using hnone.mpr h⟩⟩

theorem writeRequest_run {domid : UInt32} {payload : Bytes} {path : CString}
    {data : Option CString} {s : Shared} (hok : PermsOk s.root) (hallocs : s.allocs = [])
    (hargs : writeArguments domid payload = some (path, data)) :
    ∃ r, writeRequest domid payload s =
        .ok (r, { s with root := writtenTree data domid (tokens path) s.root }) ∧
      (r = .ok path ∧ (tokens path = [] ∨ Permitted data domid (tokens path) s.root) ∨
        r = .error .eacces ∧ ¬ (tokens path = [] ∨ Permitted data domid (tokens path) s.root)) := by
  obtain ⟨r, s', hrun, rfl, hr⟩ := wp_total (wp_writeRequest hok hallocs hargs)
  exact ⟨r, hrun, hr⟩

theorem answer_unique {α : Type} {r r' a b : α} {p : Prop} (h : r = a ∧ p ∨ r = b ∧ ¬ p)
    (h' : r' = a ∧ p ∨ r' = b ∧ ¬ p) : r = r' := by
  rcases h with ⟨rfl, hp⟩ | ⟨rfl, hp⟩ <;> rcases h' with ⟨rfl, hp'⟩ | ⟨rfl, hp'⟩
  · rfl
  · exact absurd hp hp'
  · exact absurd hp' hp
  · rfl

theorem permsOk_writtenTree {data : Option CString} {domid : UInt32} {toks : List CString}
    {t : XsEntry} (h : PermsOk t) : PermsOk (writtenTree data domid toks t) := by
  unfold writtenTree
  split
  · exact h.plant _ _ _
  · exact h

/-- The path "/a/b/c" with a value behind it, and the path "/a/b" with none. -/
def writeDeep : Bytes :=
  strBytes (ascii ['/', 'a', '/', 'b', '/', 'c']) ++ strBytes (ascii ['v'])

def createAbove : Bytes := strBytes (ascii ['/', 'a', '/', 'b'])

end Xenlib
