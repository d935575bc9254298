import Xenlib.FdtSafety

/-!
A structure block as the tags of a tree, and what the functions that enumerate nodes and properties
make of it. The library allows properties after the subnodes of a node, and does not enumerate
them.
-/

set_option autoImplicit false

namespace Xenlib.Libfdt

inductive Reads (fdt : FdtBuf) : Piece → FdtTag → Prop
  | beginNode (name : CString) : Reads fdt (.beginNode name) (.beginNode name)
  | property {nameoff : Nat} {name : CString} (value : Bytes) :
      fdtGetString fdt (toInt nameoff) = .ok (.ok name) →
        Reads fdt (.prop nameoff value) (.property name value)
  | endNode : Reads fdt .endNode .endNode

/-- From this offset on, the block holds these tags and then its end. Nops may stand before a tag,
but not before the end. -/
inductive Walk (fdt : FdtBuf) : Nat → List FdtTag → Prop
  | finish {off next : Nat} : PieceAt fdt off .finish next → Walk fdt off []
  | nop {off next : Nat} {tag : FdtTag} {tags : List FdtTag} :
      PieceAt fdt off .nop next → Walk fdt next (tag :: tags) → Walk fdt off (tag :: tags)
  | tag {off next : Nat} {piece : Piece} {tag : FdtTag} {tags : List FdtTag} :
      PieceAt fdt off piece next → Reads fdt piece tag → Walk fdt next tags →
        Walk fdt off (tag :: tags)

/-- The first tag is at this offset, without a nop before it. -/
structure Here (fdt : FdtBuf) (off : Nat) (tag : FdtTag) (tags : List FdtTag) : Prop where
  aligned : off % fdtTagsize = 0
  piece : ∃ (next : Nat) (piece : Piece),
    PieceAt fdt off piece next ∧ Reads fdt piece tag ∧ Walk fdt next tags

/-- A tree that is read with the functions of today's version. -/
structure Readable (fdt : FdtBuf) : Prop where
  framed : Framed fdt
  probe : 0 ≤ fdtRoProbe fdt
  version : 0x10 ≤ fdt.version

variable {fdt : FdtBuf}

theorem Walk.room {off : Nat} {tags : List FdtTag} (hw : Walk fdt off tags) :
    off + 4 * tags.length ≤ fdt.totalsize := by
  induction hw with
  | finish hp =>
    have hlt := hp.lt
    have hbound := hp.bound
    simp only [List.length_nil]
    omega
  | nop hp _ ih =>
    have hlt := hp.lt
    omega
  | tag hp _ _ ih =>
    have hlt := hp.lt
    simp only [List.length_cons]
    omega

theorem Here.beginNode {off : Nat} {name : CString} {tags : List FdtTag}
    (h : Here fdt off (.beginNode name) tags) : ∃ next, next % fdtTagsize = 0 ∧
      PieceAt fdt off (.beginNode name) next ∧ Walk fdt next tags := by
  obtain ⟨next, piece, hp, hreads, hw⟩ := h.piece
  cases hreads
  exact ⟨next, hp.aligned, hp, hw⟩

theorem Here.property {off : Nat} {name : CString} {value : Bytes} {tags : List FdtTag}
    (h : Here fdt off (.property name value) tags) : ∃ (next nameoff : Nat),
      next % fdtTagsize = 0 ∧ fdtGetString fdt (toInt nameoff) = .ok (.ok name) ∧
        PieceAt fdt off (.prop nameoff value) next ∧ Walk fdt next tags := by
  obtain ⟨next, piece, hp, hreads, hw⟩ := h.piece
  cases hreads with
  | property _ hname => exact ⟨next, _, hp.aligned, hname, hp, hw⟩

theorem Here.endNode {off : Nat} {tags : List FdtTag} (h : Here fdt off .endNode tags) :
    ∃ next, next % fdtTagsize = 0 ∧ PieceAt fdt off .endNode next ∧ Walk fdt next tags := by
  obtain ⟨next, piece, hp, hreads, hw⟩ := h.piece
  cases hreads
  exact ⟨next, hp.aligned, hp, hw⟩

theorem Rounds.succ {off rounds : Nat} (h : Rounds fdt off rounds) : ∃ k, rounds = k + 1 :=
  ⟨rounds - 1, by have hpos := h.1; omega⟩

theorem Rounds.mono {off off' rounds : Nat} (h : Rounds fdt off rounds) (hle : off ≤ off') :
    Rounds fdt off' rounds := by
  have htotal := h.2
  exact ⟨h.1, by omega⟩

theorem nextProp_property {off : Nat} {name : CString} {value : Bytes} {tags : List FdtTag}
    (hw : Walk fdt off (.property name value :: tags)) (hoff : off % fdtTagsize = 0) {rounds : Nat}
    (hr : Rounds fdt off rounds) : ∃ n : Nat, nextProp fdt rounds off = .ok n ∧
      Here fdt n (.property name value) tags := by
  generalize htags : FdtTag.property name value :: tags = all at hw
  induction hw generalizing rounds with
  | finish => cases htags
  | nop hp _ ih =>
    obtain ⟨k, rfl⟩ := hr.succ
    have hlt := hp.lt
    rw [nextProp_nop hp.tag]
    exact ih hp.aligned (hr.next hp (by omega)) htags
  | tag hp hreads hw =>
    obtain ⟨k, rfl⟩ := hr.succ
    cases htags
    cases hreads with
    | property _ hname => exact ⟨_, nextProp_prop hp.tag, hoff, _, _, hp, .property _ hname, hw⟩

theorem nextProp_notfound {off : Nat} {tag : FdtTag} {tags : List FdtTag}
    (hw : Walk fdt off (tag :: tags)) (htag : ∀ name value, tag ≠ .property name value)
    {rounds : Nat} (hr : Rounds fdt off rounds) :
    nextProp fdt rounds off = .ok (-fdtErrNotfound) := by
  generalize htags : tag :: tags = all at hw
  induction hw generalizing rounds with
  | finish => cases htags
  | nop hp _ ih =>
    obtain ⟨k, rfl⟩ := hr.succ
    have hlt := hp.lt
    rw [nextProp_nop hp.tag]
    exact ih (hr.next hp (by omega)) htags
  | tag hp hreads hw =>
    obtain ⟨k, rfl⟩ := hr.succ
    cases htags
    cases hreads with
    | property value hname => exact absurd rfl (htag _ _)
    | beginNode name => exact nextProp_node (Or.inl rfl) hp.tag
    | endNode => exact nextProp_node (Or.inr rfl) hp.tag

theorem PieceAt.check {off next : Nat} {piece : Piece} (hp : PieceAt fdt off piece next)
    (hoff : off % fdtTagsize = 0) : checkOffset piece.tag fdt off = .ok (next : Int) := by
  rw [checkOffset_eq hoff hp.tag, if_neg (not_not.mpr rfl)]

inductive FdtItems where
  | nil
  | property (p : FdtProperty) (next : FdtItems)
  | node (name : CString) (content next : FdtItems)
  deriving DecidableEq, Repr

namespace FdtItems

def tags : FdtItems → List FdtTag
  | .nil => []
  | .property p next => p.tag :: next.tags
  | .node name content next => .beginNode name :: (content.tags ++ (.endNode :: next.tags))

def leading : FdtItems → List FdtProperty
  | .property p next => p :: next.leading
  | _ => []

/-- The nodes, each with the properties that come first in it. -/
def nodes : FdtItems → FdtNodes
  | .nil => .nil
  | .property _ next => next.nodes
  | .node name content next => .node name content.leading content.nodes next.nodes

end FdtItems

/-- What a caller of `fdt_next_node` returns when it goes on from here at this depth, if it has
enough rounds left. -/
def Search (fdt : FdtBuf) (cont : Nat → Int × Option Int → Except FdtStop Int) (off depth : Nat)
    (r : Int) : Prop :=
  ∀ rounds left, Rounds fdt off rounds → Rounds fdt off left →
    (nextNodeLoop fdt rounds off (some (depth : Int))).bind (cont left) = .ok r

section
variable {cont : Nat → Int × Option Int → Except FdtStop Int} {off next depth : Nat} {r : Int}

theorem Search.skip {piece : Piece} (hp : PieceAt fdt off piece next)
    (hkind : piece.tag = fdtPropTag ∨ piece.tag = fdtNopTag)
    (h : Search fdt cont next depth r) : Search fdt cont off depth r := by
  intro rounds left hr hl
  obtain ⟨k, rfl⟩ := hr.succ
  have hlt := hp.lt
  rw [nextNodeLoop_skip hkind hp.tag]
  exact h k left (hr.next hp (by omega)) (hl.mono (by omega))

theorem Search.close (hp : PieceAt fdt off .endNode next) (h : Search fdt cont next depth r) :
    Search fdt cont off (depth + 1) r := by
  intro rounds left hr hl
  obtain ⟨k, rfl⟩ := hr.succ
  have hlt := hp.lt
  have hdepth : ((some ((depth + 1 : Nat) : Int)).map (· - 1)) = some (depth : Int) := by
    simp
  rw [nextNodeLoop_end hp.tag, hdepth, if_neg (by simp)]
  exact h k left (hr.next hp (by omega)) (hl.mono (by omega))

/-- The search goes on inside of a node that it finds further down. -/
def GoesOn (fdt : FdtBuf) (cont : Nat → Int × Option Int → Except FdtStop Int) : Prop :=
  ∀ (off next depth : Nat) (name : CString) (r : Int), off % fdtTagsize = 0 →
    PieceAt fdt off (.beginNode name) next → 0 < depth → Search fdt cont next (depth + 1) r →
      Search fdt cont off depth r

theorem Walk.here {tag : FdtTag} {tags : List FdtTag} (hw : Walk fdt off (tag :: tags))
    (hoff : off % fdtTagsize = 0) : ∃ off', Here fdt off' tag tags ∧
      ∀ (cont : Nat → Int × Option Int → Except FdtStop Int) (depth : Nat) (r : Int),
        Search fdt cont off' depth r → Search fdt cont off depth r := by
  generalize htags : tag :: tags = all at hw
  induction hw with
  | finish => cases htags
  | nop hp _ ih =>
    obtain ⟨off', hhere, hsearch⟩ := ih hp.aligned htags
    exact ⟨off', hhere, fun cont depth r h => (hsearch cont depth r h).skip hp (Or.inr rfl)⟩
  | tag hp hreads hw =>
    cases htags
    exact ⟨_, ⟨hoff, _, _, hp, hreads, hw⟩, fun _ _ _ h => h⟩

/-- The content of a node is passed over from inside of it. -/
theorem search_items (hcont : GoesOn fdt cont) (items : FdtItems) {rest : List FdtTag}
    (hw : Walk fdt off (items.tags ++ rest)) (hoff : off % fdtTagsize = 0) (hdepth : 0 < depth) :
    ∃ off', off' % fdtTagsize = 0 ∧ Walk fdt off' rest ∧
      ∀ r, Search fdt cont off' depth r → Search fdt cont off depth r := by
  induction items generalizing off depth rest with
  | nil => exact ⟨off, hoff, hw, fun _ h => h⟩
  | property p items ih =>
    obtain ⟨off₁, hhere, hsearch⟩ := hw.here hoff
    obtain ⟨next, nameoff, hnext, -, hp, hrest⟩ := Here.property hhere
    obtain ⟨off', hoff', hw', h⟩ := ih hrest hnext hdepth
    exact ⟨off', hoff', hw', fun r hr => hsearch _ _ _ ((h r hr).skip hp (Or.inl rfl))⟩
  | node name content items ihc ihn =>
    simp only [FdtItems.tags, List.cons_append, List.append_assoc] at hw
    obtain ⟨off₁, hhere, hsearch⟩ := hw.here hoff
    obtain ⟨next, hnext, hp, hinside⟩ := hhere.beginNode
    obtain ⟨off₂, hoff₂, hw₂, hcontent⟩ := ihc hinside hnext (Nat.succ_pos depth)
    obtain ⟨off₃, hhere₃, hsearch₃⟩ := hw₂.here hoff₂
    obtain ⟨next₃, hnext₃, hp₃, hafter⟩ := hhere₃.endNode
    obtain ⟨off', hoff', hw', h⟩ := ihn hafter hnext₃ hdepth
    refine ⟨off', hoff', hw', fun r hr => hsearch _ _ _ ?_⟩
    exact hcont off₁ next depth name r hhere.aligned hp hdepth
      (hcontent r (hsearch₃ _ _ _ ((h r hr).close hp₃)))

end

end Xenlib.Libfdt
