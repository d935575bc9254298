import Xenlib.FdtEnumerate

/-!
Paths. `fdt_path_offset` takes, for each part of the path, the first subnode that has this name, or
this name before its unit address.
-/

set_option autoImplicit false

namespace Xenlib.Libfdt

namespace FdtItems

def find (s : CString) : FdtItems → Option (CString × FdtItems)
  | .nil => none
  | .property _ next => next.find s
  | .node name content next =>
    if nodenameEq name s then some (name, content) else next.find s

def lookup : List CString → CString × FdtItems → Option (CString × FdtItems)
  | [], found => some found
  | s :: names, found => (found.2.find s).bind (lookup names)

end FdtItems

variable {fdt : FdtBuf}

section
variable {off next : Nat} {name s : CString} {r : Int}

theorem lookupCont_found (h : Readable fdt) (hoff : off % fdtTagsize = 0)
    (hp : PieceAt fdt off (.beginNode name) next) (hname : nodenameEq name s = true) :
    Search fdt (lookupCont fdt s) off 0 off := by
  intro rounds left hr _
  obtain ⟨k, rfl⟩ := hr.succ
  rw [nextNodeLoop_begin hp.tag]
  change subnodeLoop fdt s (left + 1) off 1 = _
  rw [subnodeLoop, if_pos (by omega), if_pos rfl, fdtNodenameEq_here h hoff hp, hname]
  rfl

theorem lookupCont_missed (h : Readable fdt) (hoff : off % fdtTagsize = 0)
    (hp : PieceAt fdt off (.beginNode name) next) (hname : nodenameEq name s = false)
    (hsearch : Search fdt (lookupCont fdt s) next 1 r) :
    Search fdt (lookupCont fdt s) off 0 r := by
  intro rounds left hr hl
  obtain ⟨k, rfl⟩ := hr.succ
  obtain ⟨l, rfl⟩ := hl.succ
  have hlt := hp.lt
  have hne : (if (1 : Int) = 1 then fdtNodenameEq fdt off s else pure false) = .ok false := by
    rw [if_pos rfl, fdtNodenameEq_here h hoff hp, hname]
  rw [nextNodeLoop_begin hp.tag]
  change subnodeLoop fdt s (l + 2) off 1 = _
  rw [subnodeLoop_eq (by omega) hne, fdtNextNode_here hoff hp]
  exact hsearch _ _ (rounds_start h.framed next) (hl.next hp (by omega))

theorem lookupCont_closed (hp : PieceAt fdt off .endNode next) :
    Search fdt (lookupCont fdt s) off 0 (-fdtErrNotfound) :=
  Search.closed hp fun left => by
    change subnodeLoop fdt s (left + 1) next (-1) = _
    rw [subnodeLoop, if_neg (by omega)]
    rfl

end

def OffsetOf (fdt : FdtBuf) (r : Int) : Option (CString × FdtItems) → Prop
  | none => r = -fdtErrNotfound
  | some (name, content) => ∃ n : Nat, r = n ∧ Stands fdt n name content

theorem lookup_items (h : Readable fdt) (s : CString) (items : FdtItems) {off : Nat}
    {rest : List FdtTag} (hw : Walk fdt off (items.tags ++ (.endNode :: rest)))
    (hoff : off % fdtTagsize = 0) :
    ∃ r, Search fdt (lookupCont fdt s) off 0 r ∧ OffsetOf fdt r (items.find s) := by
  induction items generalizing off rest with
  | nil =>
    obtain ⟨off₁, hhere, hsearch⟩ := hw.here hoff
    obtain ⟨next, -, hp, -⟩ := hhere.endNode
    exact ⟨_, hsearch _ _ _ (lookupCont_closed hp), rfl⟩
  | property p items ih =>
    obtain ⟨off₁, hhere, hsearch⟩ := hw.here hoff
    obtain ⟨next, nameoff, hnext, -, hp, hrest⟩ := Here.property hhere
    obtain ⟨r, hr, hfound⟩ := ih hrest hnext
    exact ⟨r, hsearch _ _ _ (hr.skip hp (Or.inl rfl)), hfound⟩
  | node name content items _ ihn =>
    simp only [FdtItems.tags, List.cons_append, List.append_assoc] at hw
    obtain ⟨n, hhere, hsearch⟩ := hw.here hoff
    obtain ⟨next, hnext, hp, hinside⟩ := hhere.beginNode
    cases hname : nodenameEq name s with
    | true =>
      refine ⟨n, hsearch _ _ _ (lookupCont_found h hhere.aligned hp hname), ?_⟩
      rw [FdtItems.find, if_pos hname]
      exact ⟨n, rfl, _, hhere⟩
    | false =>
      obtain ⟨off₂, hoff₂, hw₂, hover⟩ := search_items (lookupCont_goesOn h.framed s) content
        hinside hnext Nat.one_pos
      obtain ⟨off₃, hhere₃, hsearch₃⟩ := hw₂.here hoff₂
      obtain ⟨next₃, hnext₃, hp₃, hafter⟩ := hhere₃.endNode
      obtain ⟨r, hr, hfound⟩ := ihn hafter hnext₃
      refine ⟨r, hsearch _ _ _ (lookupCont_missed h hhere.aligned hp hname
        (hover _ (hsearch₃ _ _ _ (hr.close hp₃)))), ?_⟩
      rwa [FdtItems.find, if_neg (by simp [hname])]

theorem fdtSubnodeOffset_stands (h : Readable fdt) {n : Nat} {name : CString} {content : FdtItems}
    (hs : Stands fdt n name content) (s : CString) :
    ∃ r, fdtSubnodeOffsetNamelen fdt n s = .ok r ∧ OffsetOf fdt r (content.find s) := by
  obtain ⟨rest, hhere⟩ := hs
  obtain ⟨next, hnext, hp, hinside⟩ := hhere.beginNode
  obtain ⟨r, hr, hfound⟩ := lookup_items h s content hinside hnext
  have hlt := hp.lt
  have hprobe := h.probe
  refine ⟨r, ?_, hfound⟩
  rw [fdtSubnodeOffsetNamelen, if_neg (by omega), subnodeLoop_eq (by omega) (if_neg (by omega)),
    fdtNextNode_here hhere.aligned hp]
  exact hr _ _ (rounds_start h.framed next) ((rounds_start h.framed n).next hp (by omega))

theorem pathLoop_stands (h : Readable fdt) (names : List CString) {n : Nat} {name : CString}
    {content : FdtItems} (hs : Stands fdt n name content) :
    ∃ r, pathLoop fdt names n = .ok r ∧ OffsetOf fdt r (FdtItems.lookup names (name, content)) := by
  induction names generalizing n name content with
  | nil => exact ⟨n, rfl, ⟨n, rfl, hs⟩⟩
  | cons s names ih =>
    obtain ⟨r, hr, hfound⟩ := fdtSubnodeOffset_stands h hs s
    simp only [pathLoop, hr, bind, Except.bind, FdtItems.lookup]
    cases hfind : content.find s with
    | none =>
      rw [hfind] at hfound
      obtain rfl : r = -fdtErrNotfound := hfound
      exact ⟨_, if_pos (by decide), rfl⟩
    | some node =>
      rw [hfind] at hfound
      obtain ⟨m, rfl, hm⟩ := hfound
      rw [if_neg (by omega)]
      exact ih hm

/-- An absolute path is looked up part by part from the root. -/
theorem fdtPathOffset_root (h : Readable fdt) {name : CString} {content : FdtItems}
    (hroot : Stands fdt 0 name content) {path : CString} (habs : xenstoreIsAbsPath path = true) :
    ∃ r, fdtPathOffset fdt path = .ok r ∧
      OffsetOf fdt r (FdtItems.lookup (tokens path) (name, content)) := by
  have hprobe := h.probe
  rw [fdtPathOffset, pathOffset, if_pos habs, fdtAbsolutePath, if_neg (by omega)]
  exact pathLoop_stands h (tokens path) hroot

theorem pathLoop_neg (h : Readable fdt) {off : Int} (hneg : off < 0) (names : List CString) :
    pathLoop fdt names off = .ok off := by
  cases names with
  | nil => rfl
  | cons s names =>
    have hprobe := h.probe
    have hloop : fdtSubnodeOffsetNamelen fdt off s = .ok off := by
      rw [fdtSubnodeOffsetNamelen, if_neg (by omega), subnodeLoop, if_neg (by omega),
        if_neg (by decide)]
    simp only [pathLoop, hloop, bind, Except.bind]
    exact if_pos hneg

/-- Where a path leads to an offset, a node stands there. -/
theorem pathOffset_stands (h : Readable fdt) {name : CString} {content : FdtItems}
    (hroot : Stands fdt 0 name content) {rounds : Nat} {path : CString} {r : Int}
    (hr : pathOffset fdt rounds path = .ok r) (hpos : 0 ≤ r) :
    ∃ (n : Nat) (name' : CString) (content' : FdtItems), r = n ∧ Stands fdt n name' content' := by
  have hprobe := h.probe
  have hnode : ∀ {r : Int} {node : Option (CString × FdtItems)}, OffsetOf fdt r node → 0 ≤ r →
      ∃ (n : Nat) (name' : CString) (content' : FdtItems), r = n ∧ Stands fdt n name' content' := by
    intro r node hof hpos
    cases node with
    | none =>
      obtain rfl : r = -fdtErrNotfound := hof
      exact absurd hpos (by decide)
    | some node =>
      obtain ⟨n, rfl, hn⟩ := hof
      exact ⟨n, _, _, rfl, hn⟩
  induction rounds generalizing path r with
  | zero => cases hr
  | succ rounds ih =>
    by_cases habs : xenstoreIsAbsPath path = true
    · rw [pathOffset, if_pos habs, fdtAbsolutePath, if_neg (by omega)] at hr
      obtain ⟨r', hr', hof⟩ := pathLoop_stands h (tokens path) hroot
      change pathLoop fdt (tokens path) 0 = _ at hr'
      rw [hr] at hr'
      exact hnode ((Except.ok.inj hr') ▸ hof) hpos
    · rw [pathOffset, if_neg habs, if_neg (by omega)] at hr
      obtain ⟨found, -, hr⟩ := bind_ok hr
      cases found with
      | none =>
        obtain rfl : -fdtErrBadpath = r := Except.ok.inj hr
        exact absurd hpos (by decide)
      | some p =>
        obtain ⟨target, -, hr⟩ := bind_ok hr
        obtain ⟨start, hstart, hr⟩ := bind_ok hr
        by_cases hneg : start < 0
        · rw [pathLoop_neg h hneg] at hr
          obtain rfl := Except.ok.inj hr
          omega
        · obtain ⟨n, name', content', rfl, hn⟩ := ih hstart (by omega)
          obtain ⟨r', hr', hof⟩ := pathLoop_stands h (tokens (path.dropWhile (· ≠ slash))) hn
          rw [hr] at hr'
          exact hnode ((Except.ok.inj hr') ▸ hof) hpos

end Xenlib.Libfdt
