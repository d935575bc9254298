import Xenlib.FdtPaths

/-!
What `fdt_check_full` accepts: the tags of one root node. Such a tree is enumerated as a whole, and
every absolute path leads to the node that it names.
-/

set_option autoImplicit false

namespace Xenlib.Libfdt

variable {fdt : FdtBuf}

/-- The tags end the nodes that are open, and the last of them ends the tree. -/
def ClosesAll : Nat → List FdtTag → Prop
  | 0, tags => tags = []
  | depth + 1, tags => ∃ (content : FdtItems) (rest : List FdtTag),
      tags = content.tags ++ (.endNode :: rest) ∧ ClosesAll depth rest

theorem ClosesAll.ne_nil {depth : Nat} {tags : List FdtTag} (h : ClosesAll (depth + 1) tags) :
    tags ≠ [] := by
  obtain ⟨content, rest, rfl, -⟩ := h
  exact List.append_ne_nil_of_right_ne_nil _ (List.cons_ne_nil _ _)

theorem stringSpan_error {stroffset err : Int} (h : stringSpan fdt stroffset = .error err) :
    err < 0 := by
  unfold stringSpan at h
  dsimp only at h
  split_ifs at h <;> cases h <;> first | assumption | decide

theorem fdtGetString_error {stroffset err : Int}
    (h : fdtGetString fdt stroffset = .ok (.error err)) : err < 0 := by
  unfold fdtGetString at h
  cases hspan : stringSpan fdt stroffset with
  | error e =>
    rw [hspan] at h
    obtain rfl := Except.error.inj (Except.ok.inj h)
    exact stringSpan_error hspan
  | ok span =>
    rw [hspan] at h
    obtain ⟨found, -, h⟩ := bind_ok h
    cases found with
    | none =>
      obtain rfl := Except.error.inj (Except.ok.inj h)
      decide
    | some s => cases Except.ok.inj h

theorem fdtGetpropByOffset_error {off err : Int}
    (h : fdtGetpropByOffset fdt off = .ok (.error err)) : err < 0 := by
  obtain ⟨prop, hprop, h⟩ := bind_ok h
  cases prop with
  | error e =>
    obtain rfl := Except.error.inj (Except.ok.inj h)
    obtain ⟨next, -, hprop⟩ := bind_ok hprop
    split_ifs at hprop with hneg
    · obtain rfl := Except.error.inj (Except.ok.inj hprop)
      exact hneg
    · obtain ⟨len, -, hprop⟩ := bind_ok hprop
      cases Except.ok.inj hprop
  | ok prop =>
    obtain ⟨nameoff, -, h⟩ := bind_ok h
    obtain ⟨name, hname, h⟩ := bind_ok h
    cases name with
    | error e =>
      obtain rfl := Except.error.inj (Except.ok.inj h)
      exact fdtGetString_error hname
    | ok name =>
      obtain ⟨p, -, h⟩ := bind_ok h
      cases Except.ok.inj h

theorem reads_property {off next nameoff : Nat} {value : Bytes} (hoff : off % fdtTagsize = 0)
    (hp : PieceAt fdt off (.prop nameoff value) next) {found : CString × Nat × Int}
    (hprop : fdtGetpropByOffset fdt off = .ok (.ok found)) :
    Reads fdt (.prop nameoff value) (.property found.1 value) := by
  have hcheck : fdtCheckPropOffset fdt off = .ok (next : Int) := hp.check hoff
  obtain ⟨-, hlen, hname, -⟩ := hp.holds
  have hptr : propertyByOffset fdt off =
      .ok (.ok ⟨fdt.offDtStruct + off, toInt value.length⟩) := by
    simp only [propertyByOffset, hcheck, Int.toNat_natCast, hlen, bind, Except.bind, pure,
      Except.pure]
    rw [if_neg (by omega)]
  rw [fdtGetpropByOffset, hptr] at hprop
  simp only [hname, bind, Except.bind] at hprop
  cases hs : fdtGetString fdt (toInt nameoff) with
  | error stop => simp [hs] at hprop
  | ok r =>
    simp only [hs] at hprop
    cases r with
    | error err => cases hprop
    | ok name =>
      simp only at hprop
      cases hdata : propertyData fdt off ⟨fdt.offDtStruct + off, toInt value.length⟩ with
      | error stop => simp [hdata] at hprop
      | ok p =>
        simp only [hdata] at hprop
        obtain rfl := Except.ok.inj (Except.ok.inj hprop)
        exact .property value hs

theorem next_nonneg (n : Nat) : (0 : Int) ≤ n := Int.natCast_nonneg n

theorem checkFullLoop_after (h : Framed fdt) {rounds off depth : Nat} (hoff : off < 2 ^ 31)
    (hrun : checkFullLoop fdt rounds off depth true = .ok 0) : Walk fdt off [] := by
  cases rounds with
  | zero => cases hrun
  | succ rounds =>
    rcases fdtNextTag_spec h hoff with ⟨piece, next, hp⟩ | ⟨err, herr, hneg⟩
    · by_cases hfinish : piece.tag = fdtEndTag
      · cases piece with
        | finish => exact .finish hp
        | beginNode | prop | endNode | nop => exact absurd hfinish (by simp [Piece.tag]; decide)
      · rw [checkFullLoop_closed hfinish hp.tag (next_nonneg next)] at hrun
        exact absurd (Except.ok.inj hrun) (by decide)
    · have hneg' : -err < 0 := by rcases hneg with rfl | rfl <;> decide
      rw [checkFullLoop_error herr hneg'] at hrun
      have h0 := Except.ok.inj hrun
      omega

theorem checkFullLoop_inside (depth : Nat) (h : Framed fdt) {rounds off : Nat}
    (hoff : off < 2 ^ 31) (halign : off % fdtTagsize = 0)
    (hrun : checkFullLoop fdt rounds off (depth + 1) false = .ok 0) :
    ∃ tags, Walk fdt off tags ∧ ClosesAll (depth + 1) tags := by
  induction rounds generalizing off depth with
  | zero => cases hrun
  | succ rounds ih =>
    rcases fdtNextTag_spec h hoff with ⟨piece, next, hp⟩ | ⟨err, herr, hneg⟩
    · have hmax := (hp.lt_max h).2
      have hnext := next_nonneg next
      cases piece with
      | beginNode name =>
        rw [checkFullLoop_begin hp.tag hnext, if_neg (Nat.succ_ne_zero depth)] at hrun
        split_ifs at hrun
        · exact absurd (Except.ok.inj hrun) (by decide)
        · obtain ⟨tags, hw, content, rest, rfl, content', rest', rfl, hcloses⟩ :=
            ih (depth + 1) hmax hp.aligned hrun
          refine ⟨_, .tag hp (.beginNode name) hw, .node name content content', rest', ?_, hcloses⟩
          simp only [FdtItems.tags, List.cons_append, List.append_assoc]
      | endNode =>
        rw [checkFullLoop_end hp.tag hnext, if_neg (Nat.succ_ne_zero depth)] at hrun
        cases depth with
        | zero =>
          have hw := checkFullLoop_after h hmax hrun
          exact ⟨_, .tag hp .endNode hw, .nil, [], rfl, rfl⟩
        | succ depth =>
          obtain ⟨tags, hw, hcloses⟩ := ih depth hmax hp.aligned hrun
          exact ⟨_, .tag hp .endNode hw, .nil, tags, rfl, hcloses⟩
      | nop =>
        rw [checkFullLoop_nop hp.tag hnext] at hrun
        obtain ⟨tags, hw, hcloses⟩ := ih depth hmax hp.aligned hrun
        cases tags with
        | nil => exact absurd rfl hcloses.ne_nil
        | cons tag tags => exact ⟨_, .nop hp hw, hcloses⟩
      | prop nameoff value =>
        rw [checkFullLoop_prop hp.tag hnext] at hrun
        cases hprop : fdtGetpropByOffset fdt off with
        | error stop =>
          rw [hprop] at hrun
          cases hrun
        | ok r =>
          rw [hprop] at hrun
          cases r with
          | error err =>
            have hneg' := fdtGetpropByOffset_error hprop
            have h0 := Except.ok.inj hrun
            omega
          | ok found =>
            obtain ⟨tags, hw, content, rest, rfl, hcloses⟩ := ih depth hmax hp.aligned hrun
            exact ⟨_, .tag hp (reads_property halign hp hprop) hw,
              .property ⟨found.1, value⟩ content, rest, rfl, hcloses⟩
      | finish =>
        rw [checkFullLoop_finish hp.tag hnext, if_pos (Nat.succ_ne_zero depth)] at hrun
        exact absurd (Except.ok.inj hrun) (by decide)
    · have hneg' : -err < 0 := by rcases hneg with rfl | rfl <;> decide
      rw [checkFullLoop_error herr hneg'] at hrun
      have h0 := Except.ok.inj hrun
      omega

theorem fdtGetpropByOffset_here {off next nameoff : Nat} {value : Bytes}
    {name : CString} (hoff : off % fdtTagsize = 0) (hp : PieceAt fdt off (.prop nameoff value) next)
    (hname : fdtGetString fdt (toInt nameoff) = .ok (.ok name)) :
    ∃ found, fdtGetpropByOffset fdt off = .ok (.ok found) := by
  have hcheck : fdtCheckPropOffset fdt off = .ok (next : Int) := hp.check hoff
  obtain ⟨-, hlen, hnameoff, -⟩ := hp.holds
  have hptr : propertyByOffset fdt off =
      .ok (.ok ⟨fdt.offDtStruct + off, toInt value.length⟩) := by
    simp only [propertyByOffset, hcheck, Int.toNat_natCast, hlen, bind, Except.bind, pure,
      Except.pure]
    rw [if_neg (by omega)]
  obtain ⟨p, hdata⟩ := propertyData_spec off ⟨fdt.offDtStruct + off, toInt value.length⟩ hlen
  refine ⟨(name, p, toInt value.length), ?_⟩
  rw [fdtGetpropByOffset, hptr]
  simp only [hnameoff, hname, hdata, bind, Except.bind]
  rfl

section
variable {off depth rounds : Nat}

theorem checkFullLoop_here {tag : FdtTag} {tags : List FdtTag} (hw : Walk fdt off (tag :: tags))
    (hoff : off % fdtTagsize = 0) (hr : Rounds fdt off rounds) :
    ∃ off' rounds', Here fdt off' tag tags ∧ off ≤ off' ∧ Rounds fdt off' rounds' ∧
      checkFullLoop fdt rounds off depth false = checkFullLoop fdt rounds' off' depth false := by
  generalize htags : tag :: tags = all at hw
  induction hw generalizing rounds with
  | finish => cases htags
  | @nop off next _ _ hp _ ih =>
    obtain ⟨k, rfl⟩ := hr.succ
    have hlt := hp.lt
    obtain ⟨off', rounds', hhere, hle, hr', heq⟩ := ih hp.aligned (hr.next hp (by omega)) htags
    refine ⟨off', rounds', hhere, by omega, hr', ?_⟩
    rw [checkFullLoop_nop hp.tag (next_nonneg next), heq]
  | tag hp hreads hw =>
    cases htags
    exact ⟨_, rounds, ⟨hoff, _, _, hp, hreads, hw⟩, le_rfl, hr, rfl⟩

theorem checkFullLoop_finished (hw : Walk fdt off []) (hr : Rounds fdt off rounds) :
    checkFullLoop fdt rounds off 0 true = .ok 0 := by
  cases hw with
  | finish hp =>
    obtain ⟨k, rfl⟩ := hr.succ
    exact checkFullLoop_finish hp.tag (next_nonneg _)

/-- The content of the root node is passed. Nodes are never nested deeper than the block is long. -/
theorem checkFullLoop_items (depth : Nat) (h : Readable fdt) (items : FdtItems) {rest : List FdtTag}
    (hw : Walk fdt off (items.tags ++ rest)) (hoff : off % fdtTagsize = 0) (hpos : 0 < depth)
    (hdepth : depth ≤ off) (hr : Rounds fdt off rounds) :
    ∃ off' rounds', off' % fdtTagsize = 0 ∧ Walk fdt off' rest ∧ depth ≤ off' ∧
      Rounds fdt off' rounds' ∧
      checkFullLoop fdt rounds off depth false = checkFullLoop fdt rounds' off' depth false := by
  induction items generalizing off depth rest rounds with
  | nil => exact ⟨off, rounds, hoff, hw, hdepth, hr, rfl⟩
  | property p items ih =>
    obtain ⟨off₁, k, hhere, hle, hr₁, h₁⟩ := checkFullLoop_here hw hoff hr
    have halign := hhere.aligned
    obtain ⟨next, nameoff, hnext, hname, hp, hrest⟩ := Here.property hhere
    obtain ⟨found, hfound⟩ := fdtGetpropByOffset_here halign hp hname
    obtain ⟨k, rfl⟩ := hr₁.succ
    have hlt := hp.lt
    obtain ⟨off', rounds', hoff', hw', hle', hr', heq⟩ :=
      ih depth hrest hnext hpos (by omega) (hr₁.next hp (by omega))
    refine ⟨off', rounds', hoff', hw', hle', hr', ?_⟩
    rw [h₁, checkFullLoop_prop hp.tag (next_nonneg next), hfound]
    exact heq
  | node name content items ihc ihn =>
    simp only [FdtItems.tags, List.cons_append, List.append_assoc] at hw
    obtain ⟨off₁, k₁, hhere, hle, hr₁, h₁⟩ := checkFullLoop_here hw hoff hr
    obtain ⟨next, hnext, hp, hinside⟩ := hhere.beginNode
    obtain ⟨k₁, rfl⟩ := hr₁.succ
    have hlt := hp.lt
    have hmax := (hp.lt_max h.framed).2
    obtain ⟨off₂, k₂, hoff₂, hw₂, hle₂, hr₂, h₂⟩ :=
      ihc (depth + 1) hinside hnext (Nat.succ_pos depth) (by omega) (hr₁.next hp (by omega))
    obtain ⟨off₃, k₃, hhere₃, hle₃, hr₃, h₃⟩ := checkFullLoop_here hw₂ hoff₂ hr₂
    obtain ⟨next₃, hnext₃, hp₃, hafter⟩ := hhere₃.endNode
    obtain ⟨k₃, rfl⟩ := hr₃.succ
    have hlt₃ := hp₃.lt
    obtain ⟨off', rounds', hoff', hw', hle', hr', heq⟩ :=
      ihn depth hafter hnext₃ hpos (by omega) (hr₃.next hp₃ (by omega))
    refine ⟨off', rounds', hoff', hw', hle', hr', ?_⟩
    have hfits : ¬ intMax < depth + 1 := by
      simp only [intMax]
      omega
    rw [h₁, checkFullLoop_begin hp.tag (next_nonneg next), if_neg hfits, if_neg (by omega), h₂, h₃,
      checkFullLoop_end hp₃.tag (next_nonneg next₃), if_neg (by omega), Nat.succ_sub_one,
      if_neg (by omega)]
    exact heq

end

/-- A tree with a checked header whose first tag starts a node. -/
structure Rooted (fdt : FdtBuf) (bufsize : Nat) : Prop where
  checked : fdtCheckHeader fdt = 0
  fits : fdt.totalsize ≤ bufsize
  buffer : bufsize ≤ fdt.mem.length
  version : 0x10 ≤ fdt.version
  first : 0 ≤ resultOr (-fdtErrInternal) (fdtCheckNodeOffset fdt 0)

theorem Rooted.framed {bufsize : Nat} (h : Rooted fdt bufsize) : Framed fdt :=
  ((fdtCheckHeader_iff fdt).mp h.checked).framed (Nat.le_trans h.fits h.buffer)

theorem Rooted.beginNode {bufsize : Nat} (h : Rooted fdt bufsize) :
    ∃ (next : Nat) (name : CString), PieceAt fdt 0 (.beginNode name) next := by
  obtain ⟨r, hr, -, hpassed⟩ := checkOffset_spec h.framed
    (show fdtBeginNodeTag ≠ fdtEndTag by decide) (show (0 : Int) < 2 ^ 31 by decide)
  have hfirst := h.first
  rw [fdtCheckNodeOffset, hr] at hfirst
  obtain ⟨n, next, piece, hn, -, -, hkind, hp⟩ := hpassed hfirst
  obtain rfl : n = 0 := by omega
  obtain ⟨name, rfl⟩ := Piece.tag_beginNode hkind
  exact ⟨next, name, hp⟩

/-- The full check is the check of the reservations and of the structure block. -/
theorem Rooted.checkFull {bufsize : Nat} (h : Rooted fdt bufsize) : fdtCheckFull fdt bufsize =
    (fdtNumMemRsv fdt).bind fun n =>
      if n < 0 then .ok n else checkFullLoop fdt (fdt.mem.length + 1) 0 0 false := by
  have hchecked := (fdtCheckHeader_iff fdt).mp h.checked
  have hsize := hchecked.size
  have hmin := fdtHeaderSize_ge fdt.version
  have hfits := h.fits
  rw [fdtCheckFull, if_neg (by omega), if_neg (by omega), if_neg (not_not.mpr h.checked),
    if_neg (by omega)]
  rfl

theorem PieceAt.tag_unique {off next next' : Nat} {piece piece' : Piece}
    (hp : PieceAt fdt off piece next) (hp' : PieceAt fdt off piece' next') :
    piece.tag = piece'.tag ∧ next = next' := by
  have heq := hp.tag.symm.trans hp'.tag
  exact ⟨congrArg Prod.fst (Except.ok.inj heq),
    Int.ofNat.inj (congrArg Prod.snd (Except.ok.inj heq))⟩

theorem PieceAt.walk_node {off next : Nat} {name : CString}
    (hp : PieceAt fdt off (.beginNode name) next) {tag : FdtTag} {tags : List FdtTag}
    (hw : Walk fdt off (tag :: tags)) : tag = .beginNode name ∧ Walk fdt next tags := by
  cases hw with
  | nop hp' _ => exact absurd (hp.tag_unique hp').1 (by simp [Piece.tag]; decide)
  | tag hp' hreads hw =>
    obtain ⟨hkind, rfl⟩ := hp.tag_unique hp'
    obtain ⟨name', rfl⟩ := Piece.tag_beginNode hkind.symm
    cases hreads
    have hname := hp.holds.symm.trans hp'.holds
    exact ⟨congrArg FdtTag.beginNode (Except.ok.inj hname).symm, hw⟩

theorem PieceAt.stands {next : Nat} {name : CString} (hp : PieceAt fdt 0 (.beginNode name) next)
    {content : FdtItems} (hw : Walk fdt 0 (FdtItems.node [] content .nil).tags) :
    Stands fdt 0 [] content := by
  obtain ⟨hname, hinside⟩ := hp.walk_node hw
  obtain rfl := FdtTag.beginNode.inj hname
  exact ⟨[], rfl, _, _, hp, .beginNode [], hinside⟩

/-- The loop accepts the tags of one node without a name, and no others. -/
theorem checkFullLoop_root (h : Framed fdt) (hversion : 0x10 ≤ fdt.version) {next : Nat}
    {name : CString} (hp : PieceAt fdt 0 (.beginNode name) next) :
    checkFullLoop fdt (fdt.mem.length + 1) 0 0 false = .ok 0 ↔
      Readable fdt ∧ ∃ content, Walk fdt 0 (FdtItems.node [] content .nil).tags := by
  have hbegin := @checkFullLoop_begin fdt _ _ fdt.mem.length 0 hp.tag (next_nonneg next)
  rw [if_neg (by decide), if_pos rfl] at hbegin
  have hmax := (hp.lt_max h).2
  change checkFullLoop fdt (fdt.mem.length + 1) ((0 : Nat) : Int) 0 false = _ ↔ _
  constructor
  · intro hrun
    rw [hbegin] at hrun
    have hread : Readable fdt := by
      refine ⟨h, ?_, hversion⟩
      by_contra hneg
      have hname : fdtGetName fdt (0 : Nat) = .ok (.error (fdtRoProbe fdt)) :=
        if_pos (Int.not_le.mp hneg)
      rw [hname] at hrun
      have h0 := Except.ok.inj hrun
      omega
    rw [fdtGetName_here hread rfl hp] at hrun
    dsimp only at hrun
    split_ifs at hrun with hempty
    · exact absurd (Except.ok.inj hrun) (by decide)
    · obtain rfl := not_not.mp hempty
      obtain ⟨tags, hw, content, rest, rfl, hrest⟩ :=
        checkFullLoop_inside 0 h hmax hp.aligned hrun
      obtain rfl : rest = [] := hrest
      exact ⟨hread, content, .tag hp (.beginNode []) hw⟩
  · rintro ⟨hread, content, hw⟩
    obtain ⟨hname, hinside⟩ := hp.walk_node hw
    obtain rfl := FdtTag.beginNode.inj hname
    obtain ⟨off₁, k₁, hoff₁, hw₁, -, hr₁, h₁⟩ := checkFullLoop_items 1 hread content
      hinside hp.aligned Nat.one_pos (by have hlt := hp.lt; omega)
      ((rounds_start h 0).next hp (by have hlt := hp.lt; omega))
    obtain ⟨off₂, k₂, hhere₂, -, hr₂, h₂⟩ := checkFullLoop_here hw₁ hoff₁ hr₁
    obtain ⟨next₂, hnext₂, hp₂, hlast⟩ := hhere₂.endNode
    obtain ⟨k₂, rfl⟩ := hr₂.succ
    rw [hbegin, fdtGetName_here hread rfl hp]
    dsimp only
    rw [if_neg (not_not.mpr rfl), h₁, h₂, checkFullLoop_end hp₂.tag (next_nonneg next₂),
      if_neg (by decide), if_pos rfl]
    exact checkFullLoop_finished hlast (hr₂.next hp₂ (by have hlt := hp₂.lt; omega))

def LeadsTo (fdt : FdtBuf) (r : Except FdtStop Int) : Option (CString × FdtItems) → Prop
  | none => r = .ok (-fdtErrNotfound)
  | some (name, content) => ∃ n : Nat, r = .ok (n : Int) ∧
      (blobReader fdt).NodeAt n ⟨name, content.leading, content.nodes⟩

/-- The tree has this content, and it is found in it. -/
structure Enumerated (fdt : FdtBuf) (content : FdtItems) : Prop where
  walk : Walk fdt 0 (FdtItems.node [] content .nil).tags
  root : (blobReader fdt).NodeAt 0 ⟨[], content.leading, content.nodes⟩
  paths : ∀ path, xenstoreIsAbsPath path = true →
    LeadsTo fdt (fdtPathOffset fdt path) (FdtItems.lookup (tokens path) ([], content))
  aliases : ∀ path r, fdtPathOffset fdt path = .ok r → 0 ≤ r →
    ∃ n, (blobReader fdt).NodeAt r n

theorem Readable.enumerated (h : Readable fdt) {content : FdtItems} {next : Nat} {name : CString}
    (hp : PieceAt fdt 0 (.beginNode name) next)
    (hw : Walk fdt 0 (FdtItems.node [] content .nil).tags) : Enumerated fdt content := by
  have hroot := hp.stands hw
  refine ⟨hw, hroot.nodeAt h, fun path habs => ?_, fun path r hr hpos => ?_⟩
  · obtain ⟨r, hr, hof⟩ := fdtPathOffset_root h hroot habs
    rw [hr]
    cases hfound : FdtItems.lookup (tokens path) ([], content) with
    | none =>
      rw [hfound] at hof
      exact congrArg Except.ok hof
    | some node =>
      rw [hfound] at hof
      obtain ⟨n, rfl, hn⟩ := hof
      exact ⟨n, rfl, hn.nodeAt h⟩
  · obtain ⟨n, name', content', rfl, hn⟩ := pathOffset_stands h hroot hr hpos
    exact ⟨_, hn.nodeAt h⟩

/-- A path to the root leads there only when the size fits. -/
theorem Enumerated.readable (h : Framed fdt) (hversion : 0x10 ≤ fdt.version) {content : FdtItems}
    (he : Enumerated fdt content) : Readable fdt := by
  refine ⟨h, ?_, hversion⟩
  by_contra hneg
  obtain ⟨n, hn, -⟩ := he.paths [slash] rfl
  have hpath : fdtPathOffset fdt [slash] = .ok (fdtRoProbe fdt) := by
    rw [fdtPathOffset, pathOffset, if_pos (show xenstoreIsAbsPath [slash] = true from rfl),
      fdtAbsolutePath, if_pos (Int.not_le.mp hneg)]
  have hcode := Except.ok.inj (hpath.symm.trans hn)
  omega

theorem Rooted.walk {bufsize : Nat} (h : Rooted fdt bufsize)
    (hrun : fdtCheckFull fdt bufsize = .ok 0) :
    (∃ n, fdtNumMemRsv fdt = .ok n ∧ 0 ≤ n) ∧ Readable fdt ∧
      ∃ content, Walk fdt 0 (FdtItems.node [] content .nil).tags := by
  obtain ⟨next, name, hp⟩ := h.beginNode
  rw [h.checkFull] at hrun
  obtain ⟨n, hn, hrun⟩ := bind_ok hrun
  by_cases hneg : n < 0
  · rw [if_pos hneg] at hrun
    have h0 := Except.ok.inj hrun
    omega
  · rw [if_neg hneg, checkFullLoop_root h.framed h.version hp] at hrun
    exact ⟨⟨n, hn, by omega⟩, hrun⟩

/-- The full check accepts a tree that starts with a node when its reservations end and when its
tags are those of one root node, and then all of the tree is enumerated and found. -/
theorem checkFull_accepts (fdt : FdtBuf) (bufsize : Nat) (h : Rooted fdt bufsize) :
    fdtCheckFull fdt bufsize = .ok 0 ↔
      (∃ n, fdtNumMemRsv fdt = .ok n ∧ 0 ≤ n) ∧ ∃ content, Enumerated fdt content := by
  obtain ⟨next, name, hp⟩ := h.beginNode
  constructor
  · intro hrun
    obtain ⟨hrsv, hread, content, hw⟩ := h.walk hrun
    exact ⟨hrsv, content, hread.enumerated hp hw⟩
  · rintro ⟨⟨n, hn, hpos⟩, content, he⟩
    rw [h.checkFull, hn]
    change (if n < 0 then _ else _) = _
    rw [if_neg (by omega), checkFullLoop_root h.framed h.version hp]
    exact ⟨he.readable h.framed h.version, content, he.walk⟩

/-- A root node with a property `reg` and a node `a`. -/
def smallTree : FdtBuf :=
  ⟨0, BigEndian.table 4 [fdtMagicValue, 104, 56, 100, 40, 17, 16, 0, 4, 44, 0, 0, 0, 0,
    fdtBeginNodeTag, 0, fdtPropTag, 4, 0, 7, fdtBeginNodeTag, 0x61000000, fdtEndNodeTag,
    fdtEndNodeTag, fdtEndTag, 0x72656700], by decide⟩

theorem checkFull_accepts_small : ∃ content, Enumerated smallTree content :=
  ((checkFull_accepts smallTree 104
    ⟨by decide, by decide, by decide, by decide, by decide +kernel⟩).mp (by decide +kernel)).2

end Xenlib.Libfdt
