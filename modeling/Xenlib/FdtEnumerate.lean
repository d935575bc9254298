import Xenlib.FdtTree

/-!
The nodes and properties of a tree as the functions of libfdt enumerate them, and the nodes that
paths find.
-/

set_option autoImplicit false

namespace Xenlib.Libfdt

variable {fdt : FdtBuf}

/-- The rest of a round of `fdt_next_subnode`. -/
def subnodeCont (fdt : FdtBuf) (left : Nat) (found : Int × Option Int) : Except FdtStop Int :=
  if found.1 < 0 ∨ found.2.getD 0 < 1 then .ok (-fdtErrNotfound)
  else if 1 < found.2.getD 0 then nextSubnodeLoop fdt left found.1 (found.2.getD 0)
  else .ok found.1

theorem nextSubnodeLoop_eq (rounds : Nat) (off depth : Int) :
    nextSubnodeLoop fdt (rounds + 1) off depth =
      (fdtNextNode fdt off (some depth)).bind (subnodeCont fdt rounds) := by
  rw [nextSubnodeLoop]
  cases fdtNextNode fdt off (some depth) with
  | error stop => rfl
  | ok found => rfl

theorem fdtNextNode_here {off next : Nat} {name : CString} (hoff : off % fdtTagsize = 0)
    (hp : PieceAt fdt off (.beginNode name) next) (depth : Option Int) :
    fdtNextNode fdt off depth = nextNodeLoop fdt (fdt.mem.length + 1) next depth := by
  have hcheck : fdtCheckNodeOffset fdt off = .ok (next : Int) := hp.check hoff
  simp only [fdtNextNode, if_pos (Int.natCast_nonneg off), hcheck, bind, Except.bind]
  rw [if_neg (by omega)]

theorem subnodeCont_goesOn (h : Framed fdt) : GoesOn fdt (subnodeCont fdt) := by
  intro off next depth name r hoff hp hdepth hsearch rounds left hr hl
  obtain ⟨k, rfl⟩ := hr.succ
  obtain ⟨l, rfl⟩ := hl.succ
  have hlt := hp.lt
  have hdown : ((some (depth : Int)).map (· + 1)) = some ((depth + 1 : Nat) : Int) := by simp
  rw [nextNodeLoop_begin hp.tag, hdown]
  change subnodeCont fdt (l + 1) _ = _
  simp only [subnodeCont, Option.getD_some]
  rw [if_neg (by omega), if_pos (by omega), nextSubnodeLoop_eq, fdtNextNode_here hoff hp]
  exact hsearch _ _ (rounds_start h next) (hl.next hp (by omega))

/-- The rest of a round of `fdt_subnode_offset_namelen`, and the rounds after it. -/
def lookupCont (fdt : FdtBuf) (s : CString) (left : Nat) (found : Int × Option Int) :
    Except FdtStop Int :=
  subnodeLoop fdt s (left + 1) found.1 (found.2.getD 0)

theorem subnodeLoop_eq {s : CString} {rounds : Nat} {off depth : Int} (hin : 0 ≤ off ∧ 0 ≤ depth)
    (hne : (if depth = 1 then fdtNodenameEq fdt off s else pure false) = .ok false) :
    subnodeLoop fdt s (rounds + 2) off depth =
      (fdtNextNode fdt off (some depth)).bind (lookupCont fdt s rounds) := by
  rw [subnodeLoop, if_pos hin, hne]
  cases fdtNextNode fdt off (some depth) with
  | error stop => rfl
  | ok found => rfl

theorem lookupCont_goesOn (h : Framed fdt) (s : CString) : GoesOn fdt (lookupCont fdt s) := by
  intro off next depth name r hoff hp hdepth hsearch rounds left hr hl
  obtain ⟨k, rfl⟩ := hr.succ
  obtain ⟨l, rfl⟩ := hl.succ
  have hlt := hp.lt
  have hdown : ((some (depth : Int)).map (· + 1)) = some ((depth + 1 : Nat) : Int) := by simp
  rw [nextNodeLoop_begin hp.tag, hdown]
  change lookupCont fdt s (l + 1) _ = _
  simp only [lookupCont, Option.getD_some]
  have hne : (if ((depth + 1 : Nat) : Int) = 1 then fdtNodenameEq fdt off s else pure false) =
      .ok false := if_neg (by omega)
  rw [subnodeLoop_eq (by omega) hne, fdtNextNode_here hoff hp]
  exact hsearch _ _ (rounds_start h next) (hl.next hp (by omega))

section
variable {cont : Nat → Int × Option Int → Except FdtStop Int} {off next : Nat}

/-- At the end of the node it is in, the search finds no node. -/
theorem Search.closed (hp : PieceAt fdt off .endNode next)
    (hcont : ∀ left, cont left (next, some (-1)) = .ok (-fdtErrNotfound)) :
    Search fdt cont off 0 (-fdtErrNotfound) := by
  intro rounds left hr _
  obtain ⟨k, rfl⟩ := hr.succ
  rw [nextNodeLoop_end hp.tag, if_pos (by simp)]
  exact hcont left

end

theorem fdtGetName_here (h : Readable fdt) {off next : Nat} {name : CString}
    (hoff : off % fdtTagsize = 0) (hp : PieceAt fdt off (.beginNode name) next) :
    fdtGetName fdt off = .ok (.ok name) := by
  have hcheck : fdtCheckNodeOffset fdt off = .ok (next : Int) := hp.check hoff
  have hstr : fdt.str (fdt.offDtStruct + off + 4) = .ok name := hp.holds
  have hprobe := h.probe
  have hversion := h.version
  simp only [fdtGetName, hcheck, hstr, Int.toNat_natCast, bind, Except.bind, pure, Except.pure]
  rw [if_neg (by omega), if_neg (by omega), if_neg (by omega)]

theorem fdtNodenameEq_here (h : Readable fdt) {off next : Nat} {name : CString}
    (hoff : off % fdtTagsize = 0) (hp : PieceAt fdt off (.beginNode name) next) (s : CString) :
    fdtNodenameEq fdt off s = .ok (nodenameEq name s) := by
  simp only [fdtNodenameEq, fdtGetName_here h hoff hp, bind, Except.bind]
  rfl

def resultOr {α : Type} (default : α) : Except FdtStop α → α
  | .ok a => a
  | .error _ => default

def blobReader (fdt : FdtBuf) : FdtReader where
  getName off :=
    match fdtGetName fdt off with
    | .ok (.ok name) => name
    | _ => []
  firstPropertyOffset off := resultOr (-fdtErrInternal) (fdtFirstPropertyOffset fdt off)
  nextPropertyOffset off := resultOr (-fdtErrInternal) (fdtNextPropertyOffset fdt off)
  getPropertyByOffset off :=
    match fdtGetPropertyByOffset fdt off with
    | .ok (.ok prop) =>
      match fdt.ld32 (prop.ptr + 8), fdt.bytes (prop.ptr + 12) prop.len.toNat with
      | .ok nameoff, .ok data => some (UInt32.ofNat nameoff, data)
      | _, _ => none
    | _ => none
  string nameoff :=
    match fdtGetString fdt (toInt nameoff.toNat) with
    | .ok (.ok s) => s
    | _ => []
  firstSubnode off := resultOr (-fdtErrInternal) (fdtFirstSubnode fdt off)
  nextSubnode off := resultOr (-fdtErrInternal) (fdtNextSubnode fdt off)
  pathOffset path := resultOr (-fdtErrInternal) (fdtPathOffset fdt path)

section
variable {off next : Nat}

theorem fdtFirstPropertyOffset_here {name : CString} (hoff : off % fdtTagsize = 0)
    (hp : PieceAt fdt off (.beginNode name) next) :
    fdtFirstPropertyOffset fdt off = nextProp fdt (fdt.mem.length + 1) next := by
  have hcheck : fdtCheckNodeOffset fdt off = .ok (next : Int) := hp.check hoff
  simp only [fdtFirstPropertyOffset, hcheck, bind, Except.bind]
  rw [if_neg (by omega)]

theorem fdtNextPropertyOffset_here {nameoff : Nat} {value : Bytes} (hoff : off % fdtTagsize = 0)
    (hp : PieceAt fdt off (.prop nameoff value) next) :
    fdtNextPropertyOffset fdt off = nextProp fdt (fdt.mem.length + 1) next := by
  have hcheck : fdtCheckPropOffset fdt off = .ok (next : Int) := hp.check hoff
  simp only [fdtNextPropertyOffset, hcheck, bind, Except.bind]
  rw [if_neg (by omega)]

theorem fdtGetPropertyByOffset_here (h : Readable fdt) {nameoff : Nat} {value : Bytes}
    (hoff : off % fdtTagsize = 0) (hp : PieceAt fdt off (.prop nameoff value) next) :
    fdtGetPropertyByOffset fdt off =
      .ok (.ok ⟨fdt.offDtStruct + off, (value.length : Int)⟩) := by
  have hcheck : fdtCheckPropOffset fdt off = .ok (next : Int) := hp.check hoff
  have hversion := h.version
  obtain ⟨hmax, hlen, -, -⟩ := hp.holds
  rw [fdtGetPropertyByOffset, if_neg (by omega)]
  simp only [propertyByOffset, hcheck, Int.toNat_natCast, hlen, toInt_natCast hmax, bind,
    Except.bind, pure, Except.pure]
  rw [if_neg (by omega)]

theorem getPropertyByOffset_here (h : Readable fdt) {nameoff : Nat} {value : Bytes}
    (hoff : off % fdtTagsize = 0) (hp : PieceAt fdt off (.prop nameoff value) next) :
    (blobReader fdt).getPropertyByOffset off = some (UInt32.ofNat nameoff, value) := by
  obtain ⟨-, -, hname, hvalue⟩ := hp.holds
  simp only [blobReader, fdtGetPropertyByOffset_here h hoff hp, hname, Int.toNat_natCast, hvalue]

theorem string_here {nameoff : Nat} {name : CString} (hmax : nameoff < 2 ^ 32)
    (hname : fdtGetString fdt (toInt nameoff) = .ok (.ok name)) :
    (blobReader fdt).string (UInt32.ofNat nameoff) = name := by
  have heq : (UInt32.ofNat nameoff).toNat = nameoff := by
    rw [UInt32.toNat_ofNat']
    exact Nat.mod_eq_of_lt hmax
  simp only [blobReader, heq, hname]

theorem ld32_lt {p v : Nat} (h : fdt.ld32 p = .ok v) : v < 2 ^ 32 := by
  by_cases hp : p + 4 ≤ fdt.mem.length
  · rw [ld32_ok hp] at h
    exact Except.ok.inj h ▸ be32At_lt _ _
  · rw [FdtBuf.ld32, if_neg hp] at h
    cases h

theorem propertiesAt_items (h : Readable fdt) (items : FdtItems) {rest : List FdtTag}
    (hw : Walk fdt off (items.tags ++ (.endNode :: rest))) (hoff : off % fdtTagsize = 0) :
    (blobReader fdt).PropertiesAt
      (resultOr (-fdtErrInternal) (nextProp fdt (fdt.mem.length + 1) off)) items.leading := by
  induction items generalizing off with
  | nil =>
    rw [nextProp_notfound hw (fun _ _ => FdtTag.noConfusion) (rounds_start h.framed off)]
    rfl
  | node name content items =>
    rw [nextProp_notfound hw (fun _ _ => FdtTag.noConfusion) (rounds_start h.framed off)]
    rfl
  | property p items ih =>
    obtain ⟨n, hn, hhere⟩ := nextProp_property hw hoff (rounds_start h.framed off)
    obtain ⟨next, nameoff, hnext, hname, hp, hrest⟩ := hhere.property
    rw [hn]
    refine ⟨Int.natCast_nonneg n, ⟨_, getPropertyByOffset_here h hhere.aligned hp,
      string_here (ld32_lt hp.holds.2.2.1) hname⟩, ?_⟩
    have hafter := ih hrest hnext
    rwa [← fdtNextPropertyOffset_here hhere.aligned hp] at hafter

end

def Stands (fdt : FdtBuf) (off : Nat) (name : CString) (content : FdtItems) : Prop :=
  ∃ rest, Here fdt off (.beginNode name) (content.tags ++ (.endNode :: rest))

theorem nextNodeLoop_depth (h : Framed fdt) {rounds off : Nat} {depth : Int} {found : Int}
    {depth' : Option Int} (hoff : off < 2 ^ 31)
    (hrun : nextNodeLoop fdt rounds off (some depth) = .ok (found, depth')) :
    depth'.getD 0 ≤ depth + 1 := by
  induction rounds generalizing off depth with
  | zero => cases hrun
  | succ rounds ih =>
    rcases fdtNextTag_spec h hoff with ⟨piece, next, hp⟩ | ⟨err, herr, -⟩
    · have hmax := (hp.lt_max h).2
      cases piece with
      | beginNode name =>
        rw [nextNodeLoop_begin hp.tag] at hrun
        obtain ⟨-, rfl⟩ := Prod.mk.inj (Except.ok.inj hrun)
        simp
      | endNode =>
        rw [nextNodeLoop_end hp.tag] at hrun
        split_ifs at hrun
        · obtain ⟨-, rfl⟩ := Prod.mk.inj (Except.ok.inj hrun)
          simp only [Option.map_some, Option.getD_some]
          omega
        · have hle : depth'.getD 0 ≤ depth - 1 + 1 := ih hmax hrun
          omega
      | finish =>
        rw [nextNodeLoop_finish hp.tag] at hrun
        obtain ⟨-, rfl⟩ := Prod.mk.inj (Except.ok.inj hrun)
        simp only [Option.getD_some]
        omega
      | prop nameoff value =>
        rw [nextNodeLoop_skip (Or.inl rfl) hp.tag] at hrun
        exact ih hmax hrun
      | nop =>
        rw [nextNodeLoop_skip (Or.inr rfl) hp.tag] at hrun
        exact ih hmax hrun
    · rw [nextNodeLoop_finish herr] at hrun
      obtain ⟨-, rfl⟩ := Prod.mk.inj (Except.ok.inj hrun)
      simp only [Option.getD_some]
      omega

section
variable {off next : Nat} {r : Int}

theorem fdtNextSubnode_here (h : Framed fdt) {name : CString} (hoff : off % fdtTagsize = 0)
    (hp : PieceAt fdt off (.beginNode name) next)
    (hsearch : Search fdt (subnodeCont fdt) next 1 r) :
    fdtNextSubnode fdt off = .ok r := by
  have hlt := hp.lt
  rw [fdtNextSubnode, nextSubnodeLoop_eq, fdtNextNode_here hoff hp]
  exact hsearch _ _ (rounds_start h next) ((rounds_start h off).next hp (by omega))

theorem fdtFirstSubnode_here (h : Framed fdt) {name : CString} (hoff : off % fdtTagsize = 0)
    (hp : PieceAt fdt off (.beginNode name) next)
    (hsearch : Search fdt (subnodeCont fdt) next 0 r) :
    fdtFirstSubnode fdt off = .ok r := by
  have hnext := (hp.lt_max h).2
  have hrun := hsearch _ _ (rounds_start h next) (rounds_start h next)
  obtain ⟨found, depth', hloop, -⟩ := nextNodeLoop_spec h (rounds_start h next) hnext
    (some ((0 : Nat) : Int))
  have hdepth := nextNodeLoop_depth h hnext hloop
  rw [hloop] at hrun
  simp only [fdtFirstSubnode, fdtNextNode_here hoff hp, bind, Except.bind, pure, Except.pure]
  change nextNodeLoop fdt _ next (some 0) = _ at hloop
  rw [hloop, ← hrun]
  change _ = subnodeCont fdt _ (found, depth')
  have hiff : found < 0 ∨ depth' ≠ some 1 ↔ found < 0 ∨ depth'.getD 0 < 1 := by
    cases depth' with
    | none => simp
    | some d =>
      simp only [Option.getD_some] at hdepth ⊢
      simp only [ne_eq, Option.some.injEq]
      omega
  simp only [subnodeCont]
  by_cases hdone : found < 0 ∨ depth'.getD 0 < 1
  · rw [if_pos (hiff.mpr hdone), if_pos hdone]
  · rw [if_neg (mt hiff.mp hdone), if_neg hdone, if_neg (by omega)]

theorem subnodeCont_found {name : CString} (hp : PieceAt fdt off (.beginNode name) next) :
    Search fdt (subnodeCont fdt) off 0 off := by
  intro rounds left hr _
  obtain ⟨k, rfl⟩ := hr.succ
  rw [nextNodeLoop_begin hp.tag]
  change subnodeCont fdt left (off, some 1) = _
  simp only [subnodeCont, Option.getD_some]
  rw [if_neg (by omega), if_neg (by omega)]

theorem subnodeCont_closed (hp : PieceAt fdt off .endNode next) :
    Search fdt (subnodeCont fdt) off 0 (-fdtErrNotfound) :=
  Search.closed hp fun _ => if_pos (Or.inr (show (-1 : Int) < 1 by decide))

theorem nodesAt_items (h : Readable fdt) (items : FdtItems) {rest : List FdtTag}
    (hw : Walk fdt off (items.tags ++ (.endNode :: rest))) (hoff : off % fdtTagsize = 0) :
    ∃ r, Search fdt (subnodeCont fdt) off 0 r ∧ (blobReader fdt).NodesAt r items.nodes := by
  induction items generalizing off rest with
  | nil =>
    obtain ⟨off₁, hhere, hsearch⟩ := hw.here hoff
    obtain ⟨next, -, hp, -⟩ := hhere.endNode
    exact ⟨_, hsearch _ _ _ (subnodeCont_closed hp), rfl⟩
  | property p items ih =>
    obtain ⟨off₁, hhere, hsearch⟩ := hw.here hoff
    obtain ⟨next, nameoff, hnext, -, hp, hrest⟩ := Here.property hhere
    obtain ⟨r, hr, hnodes⟩ := ih hrest hnext
    exact ⟨r, hsearch _ _ _ (hr.skip hp (Or.inl rfl)), hnodes⟩
  | node name content items ihc ihn =>
    simp only [FdtItems.tags, List.cons_append, List.append_assoc] at hw
    obtain ⟨n, hhere, hsearch⟩ := hw.here hoff
    obtain ⟨next, hnext, hp, hinside⟩ := hhere.beginNode
    obtain ⟨r₁, hr₁, hcontent⟩ := ihc hinside hnext
    -- the next node comes after the content
    obtain ⟨off₂, hoff₂, hw₂, hover⟩ := search_items (subnodeCont_goesOn h.framed) content hinside
      hnext Nat.one_pos
    obtain ⟨off₃, hhere₃, hsearch₃⟩ := hw₂.here hoff₂
    obtain ⟨next₃, hnext₃, hp₃, hafter⟩ := hhere₃.endNode
    obtain ⟨r₂, hr₂, hrest⟩ := ihn hafter hnext₃
    have hname : (blobReader fdt).getName n = name := by
      simp only [blobReader, fdtGetName_here h hhere.aligned hp]
    have hprops : (blobReader fdt).firstPropertyOffset n =
        resultOr (-fdtErrInternal) (nextProp fdt (fdt.mem.length + 1) next) :=
      congrArg (resultOr _) (fdtFirstPropertyOffset_here hhere.aligned hp)
    have hfirst : (blobReader fdt).firstSubnode n = r₁ :=
      congrArg (resultOr _) (fdtFirstSubnode_here h.framed hhere.aligned hp hr₁)
    have hsecond : (blobReader fdt).nextSubnode n = r₂ :=
      congrArg (resultOr _) (fdtNextSubnode_here h.framed hhere.aligned hp
        (hover _ (hsearch₃ _ _ _ (hr₂.close hp₃))))
    refine ⟨n, hsearch _ _ _ (subnodeCont_found hp), Int.natCast_nonneg n, hname, ?_, ?_, ?_⟩
    · rw [hprops]
      exact propertiesAt_items h content hinside hnext
    · rwa [hfirst]
    · rwa [hsecond]

theorem Stands.nodeAt (h : Readable fdt) {name : CString} {content : FdtItems}
    (hs : Stands fdt off name content) :
    (blobReader fdt).NodeAt off ⟨name, content.leading, content.nodes⟩ := by
  obtain ⟨rest, hhere⟩ := hs
  obtain ⟨next, hnext, hp, hinside⟩ := hhere.beginNode
  obtain ⟨r, hr, hnodes⟩ := nodesAt_items h content hinside hnext
  refine ⟨Int.natCast_nonneg off, ?_, ?_, ?_⟩
  · simp only [blobReader, fdtGetName_here h hhere.aligned hp]
  · have hprops := propertiesAt_items h content hinside hnext
    rwa [← fdtFirstPropertyOffset_here hhere.aligned hp] at hprops
  · have hfirst : (blobReader fdt).firstSubnode off = r :=
      congrArg (resultOr _) (fdtFirstSubnode_here h.framed hhere.aligned hp hr)
    rwa [hfirst]

end

end Xenlib.Libfdt
