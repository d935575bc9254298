import Xenlib.DomCreate

/-!
The nodes that are copied from a partial device tree. libfdt is given by the functions that read
the tree, and by the codes the calls of its sequential writer return; a call that returns 0 appends
its tag.
-/

set_option autoImplicit false

namespace Xenlib

def fdtErrNotfound : Int := 1

def fdtErrInternal : Int := 13

/-- What the functions on the partial tree return for an offset. -/
structure FdtReader where
  getName : Int → CString
  firstPropertyOffset : Int → Int
  nextPropertyOffset : Int → Int
  /-- `nameoff` and the data of the property, or NULL. -/
  getPropertyByOffset : Int → Option (UInt32 × Bytes)
  string : UInt32 → CString
  firstSubnode : Int → Int
  nextSubnode : Int → Int
  pathOffset : CString → Int

inductive FdtTag where
  | beginNode (name : CString)
  | property (name : CString) (value : Bytes)
  | endNode
  deriving DecidableEq, Repr

/-- The number of calls of the writer and the tags that are in the new tree. -/
structure FdtWriter where
  calls : Nat
  tags : List FdtTag
  deriving DecidableEq, Repr

section
variable (codes : Nat → Int) (pfdt : FdtReader)

def FdtWriter.put (fdt : FdtWriter) (tag : FdtTag) : Int × FdtWriter :=
  (codes fdt.calls,
    ⟨fdt.calls + 1, if codes fdt.calls = 0 then fdt.tags ++ [tag] else fdt.tags⟩)

/-- `none` is a loop that goes on for longer. -/
def copyProperties : Nat → Int → FdtWriter → Option (Int × FdtWriter)
  | 0, _, _ => none
  | fuel + 1, propoff, fdt =>
    if 0 ≤ propoff then
      match pfdt.getPropertyByOffset propoff with
      | none => some (-fdtErrInternal, fdt)
      | some (nameoff, data) =>
        let (r, fdt) := fdt.put codes (.property (pfdt.string nameoff) data)
        if r ≠ 0 then some (r, fdt)
        else copyProperties fuel (pfdt.nextPropertyOffset propoff) fdt
    else some (if propoff ≠ -fdtErrNotfound then propoff else 0, fdt)

mutual

def copyNode : Nat → Int → FdtWriter → Option (Int × FdtWriter)
  | 0, _, _ => none
  | fuel + 1, nodeoff, fdt =>
    let (r, fdt) := fdt.put codes (.beginNode (pfdt.getName nodeoff))
    if r ≠ 0 then some (r, fdt)
    else match copyProperties codes pfdt fuel (pfdt.firstPropertyOffset nodeoff) fdt with
      | none => none
      | some (r, fdt) =>
        if r ≠ 0 then some (r, fdt)
        else match copySubnodes fuel (pfdt.firstSubnode nodeoff) fdt with
          | none => none
          | some (r, fdt) => if r ≠ 0 then some (r, fdt) else some (fdt.put codes .endNode)

def copySubnodes : Nat → Int → FdtWriter → Option (Int × FdtWriter)
  | 0, _, _ => none
  | fuel + 1, nodeoff, fdt =>
    if 0 ≤ nodeoff then
      match copyNode fuel nodeoff fdt with
      | none => none
      | some (r, fdt) =>
        if r ≠ 0 then some (r, fdt)
        else copySubnodes fuel (pfdt.nextSubnode nodeoff) fdt
    else some (if nodeoff ≠ -fdtErrNotfound then nodeoff else 0, fdt)

end

/-- The text from the last `c` on. -/
def strrchr (c : CChar) : CString → Option CString
  | [] => none
  | x :: xs =>
    match strrchr c xs with
    | some tail => some tail
    | none => if x = c then some (x :: xs) else none

def copyNodeByPath (fuel : Nat) (path : CString) (fdt : FdtWriter) : Option (Int × FdtWriter) :=
  match strrchr slash path with
  | none => some (-fdtErrInternal, fdt)
  | some tail =>
    let name := tail.drop 1
    let nodeoff := pfdt.pathOffset path
    if nodeoff < 0 then some (nodeoff, fdt)
    else if pfdt.getName nodeoff ≠ name then some (-fdtErrNotfound, fdt)
    else copyNode codes pfdt fuel nodeoff fdt

def copyOptional (fuel : Nat) (path : CString) (fdt : FdtWriter) : Option (Int × FdtWriter) :=
  (copyNodeByPath codes pfdt fuel path fdt).map fun (r, fdt) =>
    (if r < 0 ∧ r ≠ -fdtErrNotfound then r else 0, fdt)

/-- The loop of `copy_dt_passthrough`. -/
def copyDtPassthrough (fuel : Nat) : List CString → FdtWriter → Option (Int × FdtWriter)
  | [], fdt => some (0, fdt)
  | path :: paths, fdt =>
    match copyOptional codes pfdt fuel path fdt with
    | none => none
    | some (r, fdt) => if r ≠ 0 then some (r, fdt) else copyDtPassthrough fuel paths fdt

def copyPfdt (fuel : Nat) (fdt : FdtWriter) : Option (Int × FdtWriter) :=
  copyDtPassthrough codes pfdt fuel [cstr "/passthrough", cstr "/aliases"] fdt

end

structure FdtProperty where
  name : CString
  value : Bytes
  deriving DecidableEq, Repr

inductive FdtNodes where
  | nil
  | node (name : CString) (props : List FdtProperty) (subnodes next : FdtNodes)
  deriving DecidableEq, Repr

structure FdtNode where
  name : CString
  props : List FdtProperty
  subnodes : FdtNodes

def FdtProperty.tag (p : FdtProperty) : FdtTag := .property p.name p.value

def FdtNodes.tags : FdtNodes → List FdtTag
  | .nil => []
  | .node name props subnodes next =>
    .beginNode name :: (props.map FdtProperty.tag ++ (subnodes.tags ++ (.endNode :: next.tags)))

def FdtNode.tags (n : FdtNode) : List FdtTag := FdtNodes.tags (.node n.name n.props n.subnodes .nil)

namespace FdtReader
variable (pfdt : FdtReader)

def PropertiesAt : Int → List FdtProperty → Prop
  | off, [] => off = -fdtErrNotfound
  | off, p :: ps => 0 ≤ off ∧
    (∃ nameoff, pfdt.getPropertyByOffset off = some (nameoff, p.value) ∧
      pfdt.string nameoff = p.name) ∧
    PropertiesAt (pfdt.nextPropertyOffset off) ps

def NodesAt : Int → FdtNodes → Prop
  | off, .nil => off = -fdtErrNotfound
  | off, .node name props subnodes next => 0 ≤ off ∧ pfdt.getName off = name ∧
    pfdt.PropertiesAt (pfdt.firstPropertyOffset off) props ∧
    NodesAt (pfdt.firstSubnode off) subnodes ∧ NodesAt (pfdt.nextSubnode off) next

structure NodeAt (off : Int) (n : FdtNode) : Prop where
  offset : 0 ≤ off
  name : pfdt.getName off = n.name
  props : pfdt.PropertiesAt (pfdt.firstPropertyOffset off) n.props
  subnodes : pfdt.NodesAt (pfdt.firstSubnode off) n.subnodes

end FdtReader

/-- The node that is open at the end, if every tag is in its place; the nodes are counted from
those that were open before. -/
def closesAt : Nat → List FdtTag → Option Nat
  | depth, [] => some depth
  | depth, .beginNode _ :: tags => closesAt (depth + 1) tags
  | depth, .property _ _ :: tags => if depth = 0 then none else closesAt depth tags
  | 0, .endNode :: _ => none
  | depth + 1, .endNode :: tags => closesAt depth tags

theorem closesAt_props {depth : Nat} (props : List FdtProperty) (tags : List FdtTag) :
    closesAt (depth + 1) (props.map FdtProperty.tag ++ tags) = closesAt (depth + 1) tags := by
  induction props with
  | nil => rfl
  | cons p ps ih => simpa [FdtProperty.tag, closesAt] using ih

theorem closesAt_nodes (nodes : FdtNodes) (depth : Nat) (tags : List FdtTag) :
    closesAt depth (nodes.tags ++ tags) = closesAt depth tags := by
  induction nodes generalizing depth tags with
  | nil => rfl
  | node name props subnodes next ihs ihn =>
    simp only [FdtNodes.tags, List.cons_append, List.append_assoc, closesAt, closesAt_props]
    rw [ihs, closesAt, ihn]

theorem FdtNode.tags_balanced (n : FdtNode) : closesAt 0 n.tags = some 0 := by
  have h := closesAt_nodes (.node n.name n.props n.subnodes .nil) 0 []
  rwa [List.append_nil] at h

/-- The calls for these tags one after the other, up to the first that fails. -/
def FdtWriter.putAll (codes : Nat → Int) : List FdtTag → FdtWriter → Int × FdtWriter
  | [], fdt => (0, fdt)
  | tag :: tags, fdt =>
    if codes fdt.calls ≠ 0 then fdt.put codes tag else putAll codes tags (fdt.put codes tag).2

section Writer
variable {codes : Nat → Int}

theorem putAll_append (first second : List FdtTag) (fdt : FdtWriter) :
    fdt.putAll codes (first ++ second) =
      if (fdt.putAll codes first).1 ≠ 0 then fdt.putAll codes first
      else (fdt.putAll codes first).2.putAll codes second := by
  induction first generalizing fdt with
  | nil => simp [FdtWriter.putAll]
  | cons tag tags ih =>
    simp only [List.cons_append, FdtWriter.putAll]
    by_cases hc : codes fdt.calls = 0
    · simp only [hc, ne_eq, not_true_eq_false, if_false]
      exact ih _
    · simp [hc, FdtWriter.put]

/-- A failed call is the last one, its code is the result, and the tags before it are there. -/
structure Written (codes : Nat → Int) (tags : List FdtTag) (fdt : FdtWriter) (rc : Int)
    (fdt' : FdtWriter) : Prop where
  all : rc = 0 → fdt'.tags = fdt.tags ++ tags
  start : ∃ done, done <+: tags ∧ fdt'.tags = fdt.tags ++ done
  code : ∀ k, fdt.calls ≤ k → k < fdt'.calls → codes k ≠ 0 → rc = codes k
  failed : rc ≠ 0 → ∃ k, fdt.calls ≤ k ∧ k < fdt'.calls ∧ codes k = rc

theorem putAll_written (tags : List FdtTag) (fdt : FdtWriter) :
    Written codes tags fdt (fdt.putAll codes tags).1 (fdt.putAll codes tags).2 := by
  induction tags generalizing fdt with
  | nil =>
    refine ⟨fun _ => by simp [FdtWriter.putAll], ⟨[], List.prefix_rfl, by simp [FdtWriter.putAll]⟩,
      fun k hle hlt => ?_, fun h => absurd rfl h⟩
    simp only [FdtWriter.putAll] at hlt
    omega
  | cons tag tags ih =>
    by_cases hc : codes fdt.calls = 0
    · have hput : (fdt.put codes tag).2 = ⟨fdt.calls + 1, fdt.tags ++ [tag]⟩ := by
        simp [FdtWriter.put, hc]
      have hall : fdt.putAll codes (tag :: tags) =
          FdtWriter.putAll codes tags ⟨fdt.calls + 1, fdt.tags ++ [tag]⟩ := by
        simp [FdtWriter.putAll, hc, hput]
      obtain ⟨hok, ⟨done, hdone, htags⟩, hcode, hfail⟩ := ih ⟨fdt.calls + 1, fdt.tags ++ [tag]⟩
      rw [hall]
      refine ⟨fun h => ?_, ⟨tag :: done, (List.prefix_cons_inj tag).mpr hdone, ?_⟩,
        fun k hle hlt hk => ?_, fun h => ?_⟩
      · rw [hok h, List.append_assoc, List.singleton_append]
      · rw [htags, List.append_assoc, List.singleton_append]
      · have hne : k ≠ fdt.calls := fun he => hk (he ▸ hc)
        exact hcode k (by simp only; omega) hlt hk
      · obtain ⟨k, hle, hlt, hk⟩ := hfail h
        exact ⟨k, Nat.le_of_succ_le hle, hlt, hk⟩
    · have hall : fdt.putAll codes (tag :: tags) =
          (codes fdt.calls, ⟨fdt.calls + 1, fdt.tags⟩) := by
        simp [FdtWriter.putAll, FdtWriter.put, hc]
      rw [hall]
      refine ⟨fun h => absurd h hc, ⟨[], List.nil_prefix, by simp⟩, fun k hle hlt _ => ?_,
        fun _ => ⟨fdt.calls, Nat.le_refl _, Nat.lt_succ_self _, rfl⟩⟩
      obtain rfl : k = fdt.calls := by
        simp only at hlt
        omega
      rfl

end Writer

section Copies
variable {codes : Nat → Int} {pfdt : FdtReader}

theorem copyProperties_eq {props : List FdtProperty} {fuel : Nat} (hfuel : props.length < fuel)
    {off : Int} (h : pfdt.PropertiesAt off props) (fdt : FdtWriter) :
    copyProperties codes pfdt fuel off fdt =
      some (fdt.putAll codes (props.map FdtProperty.tag)) := by
  induction props generalizing fuel off fdt with
  | nil =>
    obtain rfl : off = -fdtErrNotfound := h
    cases fuel with
    | zero => cases hfuel
    | succ fuel => simp [copyProperties, FdtWriter.putAll, fdtErrNotfound]
  | cons p ps ih =>
    obtain ⟨hoff, ⟨nameoff, hget, hname⟩, hnext⟩ := h
    cases fuel with
    | zero => cases hfuel
    | succ fuel =>
      have hrest := ih (Nat.lt_of_succ_lt_succ hfuel) hnext (fdt.put codes p.tag).2
      simp only [copyProperties, if_pos hoff, hget, hname, List.map_cons, FdtWriter.putAll]
      by_cases hc : codes fdt.calls = 0
      · rw [if_neg (by simp [FdtWriter.put, hc]), if_neg (by simp [hc])]
        exact hrest
      · rw [if_pos (by simpa [FdtWriter.put] using hc), if_pos hc]
        rfl

theorem copyNode_of_subnodes {n : FdtNode} {off : Int} (h : pfdt.NodeAt off n) {fuel : Nat}
    (hfuel : n.props.length < fuel)
    (hsub : ∀ fdt, copySubnodes codes pfdt fuel (pfdt.firstSubnode off) fdt =
      some (fdt.putAll codes n.subnodes.tags)) (fdt : FdtWriter) :
    copyNode codes pfdt (fuel + 1) off fdt = some (fdt.putAll codes n.tags) := by
  simp only [copyNode, h.name, copyProperties_eq hfuel h.props, hsub, FdtNode.tags, FdtNodes.tags,
    FdtWriter.putAll, putAll_append]
  by_cases hc : codes fdt.calls = 0
  · simp only [FdtWriter.put, hc, ne_eq, not_true_eq_false, if_false, if_true]
    generalize FdtWriter.putAll codes (n.props.map FdtProperty.tag)
      ⟨fdt.calls + 1, fdt.tags ++ [.beginNode n.name]⟩ = r
    obtain ⟨rc, fdt₁⟩ := r
    by_cases hr : rc = 0
    · simp only [hr, not_true_eq_false, if_false]
      generalize fdt₁.putAll codes n.subnodes.tags = r'
      obtain ⟨rc', fdt₂⟩ := r'
      by_cases hr' : rc' = 0
      · simp only [hr', not_true_eq_false, if_false]
        by_cases hend : codes fdt₂.calls = 0 <;> simp [hend]
      · simp [hr']
    · simp [hr]
  · simp [FdtWriter.put, hc]

def FdtNodes.rounds : FdtNodes → Nat
  | .nil => 1
  | .node _ props subnodes next => props.length + subnodes.rounds + next.rounds + 2

theorem FdtNodes.rounds_pos (nodes : FdtNodes) : 0 < nodes.rounds := by
  cases nodes with
  | nil => exact Nat.one_pos
  | node => exact Nat.succ_pos _

theorem copySubnodes_eq {nodes : FdtNodes} {fuel : Nat} (hfuel : nodes.rounds ≤ fuel) {off : Int}
    (h : pfdt.NodesAt off nodes) (fdt : FdtWriter) :
    copySubnodes codes pfdt fuel off fdt = some (fdt.putAll codes nodes.tags) := by
  induction nodes generalizing fuel off fdt with
  | nil =>
    obtain rfl : off = -fdtErrNotfound := h
    cases fuel with
    | zero => cases hfuel
    | succ fuel => simp [copySubnodes, FdtNodes.tags, FdtWriter.putAll, fdtErrNotfound]
  | node name props subnodes next ihs ihn =>
    obtain ⟨hoff, hname, hprops, hsub, hnext⟩ := h
    simp only [FdtNodes.rounds] at hfuel
    have hpos := subnodes.rounds_pos
    obtain ⟨fuel, rfl⟩ := Nat.exists_eq_add_of_le' (show 2 ≤ fuel by omega)
    have hnode : pfdt.NodeAt off ⟨name, props, subnodes⟩ := ⟨hoff, hname, hprops, hsub⟩
    have hcopy : copyNode codes pfdt (fuel + 1) off fdt = some (fdt.putAll codes
        (FdtNode.tags ⟨name, props, subnodes⟩)) :=
      copyNode_of_subnodes hnode (show props.length < fuel by omega)
        (fun fdt => ihs (by omega) hsub fdt) fdt
    have htags : FdtNodes.tags (.node name props subnodes next) =
        FdtNode.tags ⟨name, props, subnodes⟩ ++ next.tags := by
      simp [FdtNode.tags, FdtNodes.tags]
    rw [htags, putAll_append]
    simp only [copySubnodes, if_pos hoff, hcopy]
    generalize fdt.putAll codes (FdtNode.tags ⟨name, props, subnodes⟩) = r
    obtain ⟨rc, fdt₁⟩ := r
    by_cases hr : rc = 0
    · simp only [hr, ne_eq, not_true_eq_false, if_false]
      have hrounds : next.rounds ≤ fuel + 1 := by omega
      exact ihn hrounds hnext fdt₁
    · simp [hr]

theorem copyNode_eq {n : FdtNode} {off : Int} (h : pfdt.NodeAt off n) {fuel : Nat}
    (hfuel : n.props.length + n.subnodes.rounds < fuel) (fdt : FdtWriter) :
    copyNode codes pfdt fuel off fdt = some (fdt.putAll codes n.tags) := by
  obtain ⟨fuel, rfl⟩ := Nat.exists_eq_add_of_le' (show 1 ≤ fuel by omega)
  have hprops : n.props.length < fuel := by
    have hpos := n.subnodes.rounds_pos
    omega
  have hsub : n.subnodes.rounds ≤ fuel := by omega
  exact copyNode_of_subnodes h hprops (fun fdt => copySubnodes_eq hsub h.subnodes fdt) fdt

theorem strrchr_none {c : CChar} {text : CString} (h : c ∉ text) : strrchr c text = none := by
  induction text with
  | nil => rfl
  | cons x xs ih =>
    obtain ⟨hx, hxs⟩ := not_or.mp (mt List.mem_cons.mpr h)
    simp only [strrchr, ih hxs, if_neg (Ne.symm hx)]

theorem strrchr_last {c : CChar} {last : CString} (h : c ∉ last) (first : CString) :
    strrchr c (first ++ c :: last) = some (c :: last) := by
  induction first with
  | nil => simp [strrchr, strrchr_none h]
  | cons x xs ih => simp [strrchr, ih]

/-- The copy of a node comes to its end, and the result is that of writing its tags. -/
def CopiesNode (codes : Nat → Int) (pfdt : FdtReader) (off : Int) (n : FdtNode) : Prop :=
  ∀ fdt, ∃ rounds rc fdt',
    (∀ fuel, rounds ≤ fuel → copyNode codes pfdt fuel off fdt = some (rc, fdt')) ∧
    Written codes n.tags fdt rc fdt'

def FoundAs (pfdt : FdtReader) (path name : CString) : Prop :=
  0 ≤ pfdt.pathOffset path ∧ pfdt.getName (pfdt.pathOffset path) = name

/-- The copy of a path comes to its end; it returns 0 exactly where the node is found and its copy
returns 0, and writes nothing where the node is not found. -/
def CopiesPath (codes : Nat → Int) (pfdt : FdtReader) (path name : CString) : Prop :=
  ∀ fdt, ∃ rounds rc fdt',
    (∀ fuel, rounds ≤ fuel → copyNodeByPath codes pfdt fuel path fdt = some (rc, fdt')) ∧
    (rc = 0 ↔ FoundAs pfdt path name ∧ ∀ fuel, rounds ≤ fuel →
      copyNode codes pfdt fuel (pfdt.pathOffset path) fdt = some (0, fdt')) ∧
    (¬ FoundAs pfdt path name → fdt' = fdt)

theorem copyNodeByPath_eq {first name : CString} (hname : slash ∉ name) (fuel : Nat)
    (fdt : FdtWriter) : copyNodeByPath codes pfdt fuel (first ++ slash :: name) fdt =
      if pfdt.pathOffset (first ++ slash :: name) < 0 then
        some (pfdt.pathOffset (first ++ slash :: name), fdt)
      else if pfdt.getName (pfdt.pathOffset (first ++ slash :: name)) ≠ name then
        some (-fdtErrNotfound, fdt)
      else copyNode codes pfdt fuel (pfdt.pathOffset (first ++ slash :: name)) fdt := by
  simp only [copyNodeByPath, strrchr_last hname, List.drop_succ_cons, List.drop_zero]

/-- A path whose node is not in the partial tree is passed over. -/
theorem copyOptional_absent {path : CString} (h : pfdt.pathOffset path = -fdtErrNotfound)
    {first name : CString} (hname : slash ∉ name) (hpath : path = first ++ slash :: name)
    (fuel : Nat) (fdt : FdtWriter) : copyOptional codes pfdt fuel path fdt = some (0, fdt) := by
  subst hpath
  rw [copyOptional, copyNodeByPath_eq hname, h, if_pos (by decide)]
  simp

theorem copyDtPassthrough_absent {paths : List CString}
    (h : ∀ path ∈ paths, pfdt.pathOffset path = -fdtErrNotfound ∧
      ∃ first name, slash ∉ name ∧ path = first ++ slash :: name) (fuel : Nat) (fdt : FdtWriter) :
    copyDtPassthrough codes pfdt fuel paths fdt = some (0, fdt) := by
  induction paths with
  | nil => rfl
  | cons path paths ih =>
    obtain ⟨⟨hoff, first, name, hname, hpath⟩, hrest⟩ := List.forall_mem_cons.mp h
    rw [copyDtPassthrough, copyOptional_absent hoff hname hpath]
    exact ih hrest

theorem copyPfdt_absent (hpass : pfdt.pathOffset (cstr "/passthrough") = -fdtErrNotfound)
    (haliases : pfdt.pathOffset (cstr "/aliases") = -fdtErrNotfound) (fuel : Nat)
    (fdt : FdtWriter) : copyPfdt codes pfdt fuel fdt = some (0, fdt) := by
  refine copyDtPassthrough_absent ?_ fuel fdt
  refine List.forall_mem_cons.mpr ⟨⟨hpass, [], cstr "passthrough", by decide, rfl⟩, ?_⟩
  exact List.forall_mem_cons.mpr
    ⟨⟨haliases, [], cstr "aliases", by decide, rfl⟩, List.forall_mem_nil _⟩

end Copies

/-- Where the functions of libfdt enumerate the nodes, `copy_node` writes the serialization of its
node up to the first call that fails, and `copy_node_by_path` does so for the node of its path when
it has the full name. -/
theorem copyNode_faithful (codes : Nat → Int) (pfdt : FdtReader)
    (hvalid : ∀ path, 0 ≤ pfdt.pathOffset path →
      ∃ n, pfdt.NodeAt (pfdt.pathOffset path) n) :
    (∀ off n, pfdt.NodeAt off n → CopiesNode codes pfdt off n ∧ closesAt 0 n.tags = some 0) ∧
    ∀ first name, slash ∉ name → CopiesPath codes pfdt (first ++ slash :: name) name := by
  refine ⟨fun off n h => ⟨fun fdt => ⟨_, _, _, fun fuel hfuel => copyNode_eq h hfuel fdt,
    putAll_written n.tags fdt⟩, n.tags_balanced⟩, fun first name hname fdt => ?_⟩
  generalize hpath : first ++ slash :: name = path
  have heq : ∀ fuel, copyNodeByPath codes pfdt fuel path fdt = _ :=
    fun fuel => hpath ▸ copyNodeByPath_eq hname fuel fdt
  by_cases hoff : pfdt.pathOffset path < 0
  · -- libfdt reports an error
    have hfound : ¬ FoundAs pfdt path name := fun hf => absurd hf.1 (by omega)
    refine ⟨0, pfdt.pathOffset path, fdt, fun fuel _ => by rw [heq, if_pos hoff], ?_,
      fun _ => rfl⟩
    exact ⟨fun h0 => absurd hoff (by omega), fun h => absurd h.1 hfound⟩
  · by_cases hne : pfdt.getName (pfdt.pathOffset path) = name
    · obtain ⟨n, hn⟩ := hvalid path (by omega)
      refine ⟨n.props.length + n.subnodes.rounds + 1, (fdt.putAll codes n.tags).1,
        (fdt.putAll codes n.tags).2, fun fuel hfuel => ?_, ?_,
        fun hf => absurd ⟨by omega, hne⟩ hf⟩
      · rw [heq, if_neg hoff, if_neg (not_not.mpr hne)]
        exact copyNode_eq hn hfuel fdt
      · constructor
        · intro h0
          refine ⟨⟨by omega, hne⟩, fun fuel hfuel => ?_⟩
          rw [copyNode_eq hn hfuel fdt, ← h0]
        · rintro ⟨-, hcopy⟩
          have h := hcopy _ (Nat.le_refl _)
          rw [copyNode_eq hn (Nat.le_refl _) fdt] at h
          exact congrArg Prod.fst (Option.some.inj h)
    · -- the node that libfdt finds has a unit address in its name
      have hfound : ¬ FoundAs pfdt path name := fun hf => hne hf.2
      refine ⟨0, -fdtErrNotfound, fdt, fun fuel _ => by rw [heq, if_neg hoff, if_pos hne], ?_,
        fun _ => rfl⟩
      exact ⟨fun h0 => absurd h0 (by decide), fun h => absurd h.1 hfound⟩

/-- A tree with the node "/passthrough" at offset 8 and one property in it. -/
def passthroughTree : FdtReader where
  getName off := if off = 8 then cstr "passthrough" else []
  firstPropertyOffset off := if off = 8 then 24 else -fdtErrNotfound
  nextPropertyOffset _ := -fdtErrNotfound
  getPropertyByOffset off := if off = 24 then some (0, [1]) else none
  string _ := cstr "reg"
  firstSubnode off := if off = 0 then 8 else -fdtErrNotfound
  nextSubnode _ := -fdtErrNotfound
  pathOffset path := if path = cstr "/passthrough" then 8 else -fdtErrNotfound

theorem passthroughTree_node : passthroughTree.NodeAt 8 ⟨cstr "passthrough",
    [⟨cstr "reg", [1]⟩], .nil⟩ :=
  ⟨by decide, rfl, ⟨by decide, ⟨0, rfl, rfl⟩, rfl⟩, rfl⟩

theorem copyNode_faithful_passthrough :
    CopiesNode (fun _ => 0) passthroughTree 8 ⟨cstr "passthrough", [⟨cstr "reg", [1]⟩], .nil⟩ ∧
      CopiesPath (fun _ => 0) passthroughTree (cstr "/passthrough") (cstr "passthrough") := by
  have hvalid : ∀ path, 0 ≤ passthroughTree.pathOffset path →
      ∃ n, passthroughTree.NodeAt (passthroughTree.pathOffset path) n := by
    intro path hoff
    by_cases hpath : path = cstr "/passthrough"
    · subst hpath
      exact ⟨_, passthroughTree_node⟩
    · simp [passthroughTree, hpath, fdtErrNotfound] at hoff
  have h := copyNode_faithful (fun _ => 0) passthroughTree hvalid
  exact ⟨(h.1 8 _ passthroughTree_node).1, h.2 [] (cstr "passthrough") (by decide)⟩

end Xenlib
