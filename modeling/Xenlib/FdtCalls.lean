import Xenlib.FdtDraft

/-!
The calls of the writer in its struct state. A call adds its tag, or there is no room for it and
the tree stays as it is.
-/

set_option autoImplicit false

namespace Xenlib

def FdtTag.nameSize : FdtTag → Nat
  | .property name _ => name.length + 1
  | _ => 0

end Xenlib

namespace Xenlib.Libfdt

inductive Stated (strs : Bytes) : Piece → FdtTag → Prop
  | beginNode (name : CString) : Stated strs (.beginNode name) (.beginNode name)
  | property {nameoff : Nat} {name : CString} (value : Bytes) :
      Named strs nameoff name → Stated strs (.prop nameoff value) (.property name value)
  | endNode : Stated strs .endNode .endNode

structure Added (p p' : Parts) (tag : FdtTag) : Prop where
  addr : p'.addr = p.addr
  flags : p'.flags = p.flags
  rsv : p'.rsv = p.rsv
  block : ∃ bs piece, p'.block = p.block ++ bs ∧ Laid piece bs ∧ Stated p'.strs piece tag
  strs : ∃ more, p'.strs = more ++ p.strs ∧ more.length ≤ tag.nameSize
  total : p'.total = p.total

/-- The same parts, with other bytes that are free at most. -/
structure Kept (p p' : Parts) : Prop where
  same : p' = { p with gap := p'.gap }
  free : p'.gap.length = p.gap.length

theorem Kept.rfl {p : Parts} : Kept p p := ⟨Eq.refl p, Eq.refl _⟩

end Xenlib.Libfdt

namespace Xenlib
namespace FdtTag
open Libfdt

def cost : FdtTag → Nat
  | .beginNode name => 4 + fdtTagalign (name.length + 1)
  | .property name value => 12 + fdtTagalign value.length + (name.length + 1)
  | .endNode => 4

theorem nameSize_le_cost (tag : FdtTag) : tag.nameSize ≤ tag.cost := by
  cases tag with
  | beginNode name => exact Nat.zero_le _
  | property name value => exact Nat.le_add_left _ _
  | endNode => exact Nat.zero_le _

/-- Sizes are in an `int`. -/
def Small : FdtTag → Prop
  | .beginNode name => name.length < 2 ^ 31 - 1
  | .property name value => name.length < 2 ^ 31 - 1 ∧ value.length < 2 ^ 31
  | .endNode => True

def call : FdtTag → FdtCall
  | .beginNode name => fdtBeginNode name
  | .property name value => fdtProperty name value
  | .endNode => fdtEndNode

end FdtTag
end Xenlib

namespace Xenlib.Libfdt

structure Called (p p' : Parts) (tag : FdtTag) (r : Int) : Prop where
  code : r = 0 ∧ Added p p' tag ∧ p.gap.length ≤ p'.gap.length + tag.cost ∨
    r = -fdtErrNospace ∧ Kept p p' ∧ p.gap.length < tag.cost

section
variable {fdt : FdtBuf} {p : Parts}

theorem Building.grabbed (h : Building fdt p) {len : Nat} (hlen : len ≤ p.gap.length) :
    ∃ g gap, p.gap = g ++ gap ∧ g.length = len ∧
      Has (fdt.setSizeDtStruct (p.block.length + len))
        { p.header with sizeDtStruct := p.block.length + len }
        ((p.rsv ++ p.block) ++ (g ++ (gap ++ p.strs))) := by
  have hint := h.int
  simp only [Parts.total] at hint
  obtain ⟨g, gap, hgap, hg⟩ := split_gap hlen
  have hhas : Has fdt p.header ((p.rsv ++ p.block) ++ (g ++ (gap ++ p.strs))) := by
    simpa only [Parts.rest, hgap, List.append_assoc] using h.has
  exact ⟨g, gap, hgap, hg, hhas.set 9 (by omega) rfl⟩

theorem Building.stored (h : Building fdt p) (piece : Piece) {fdt' : FdtBuf} {pad gap : Bytes}
    (hfits : piece.Fits) (hgap : piece.size + gap.length = p.gap.length)
    (hpad : (piece.head ++ (piece.body ++ pad)).length = piece.size)
    (hhas : Has fdt' { p.header with sizeDtStruct := p.block.length + piece.size }
      ((p.rsv ++ p.block) ++ (piece.head ++ (piece.body ++ (pad ++ (gap ++ p.strs))))))
    (haddr : fdt'.addr = fdt.addr) :
    Laid piece (piece.head ++ (piece.body ++ pad)) ∧
      Building fdt' { p with
        block := p.block ++ (piece.head ++ (piece.body ++ pad)), gap := gap } := by
  refine ⟨⟨hfits, ⟨pad, by rw [List.append_assoc]⟩, hpad⟩, h.grown (by rw [hpad, hgap]) ?_ haddr⟩
  rw [hpad]
  simpa only [List.append_assoc] using hhas

theorem Building.endNode (h : Building fdt p) : ∃ r fdt' p',
    fdtEndNode fdt = .ok (r, fdt') ∧ Building fdt' p' ∧ Called p p' .endNode r := by
  simp only [fdtEndNode, h.probe, h.grab (show fdtTagsize < 2 ^ 32 by decide), bind, Except.bind,
    pure, Except.pure]
  rw [if_neg (not_not.mpr rfl)]
  by_cases hfit : fdtTagsize ≤ p.gap.length
  · obtain ⟨g, gap, hgap, hg, hhas⟩ := h.grabbed hfit
    obtain ⟨fdt₁, hstore, hhas₁, haddr⟩ := hhas.store (cpuToFdt32 fdtEndNodeTag) rfl
      (by rw [hg, cpuToFdt32, BigEndian.bytes_length]; rfl)
    have hsum := congrArg List.length hgap
    rw [List.length_append, hg] at hsum
    rw [← List.nil_append (gap ++ p.strs)] at hhas₁
    obtain ⟨hlaid, hb⟩ := h.stored .endNode trivial hsum.symm rfl hhas₁ haddr
    rw [if_pos hfit]
    simp only [hstore]
    exact ⟨_, _, _, rfl, hb, ⟨Or.inl ⟨rfl, ⟨rfl, rfl, rfl, ⟨_, _, rfl, hlaid, .endNode⟩,
      ⟨[], rfl, Nat.zero_le _⟩,
      Parts.total_grown (by rw [hlaid.length, hsum]; rfl)⟩,
      by rw [FdtTag.cost, hsum, Nat.add_comm]; rfl⟩⟩⟩
  · rw [if_neg hfit]
    exact ⟨_, _, p, rfl, h, ⟨Or.inr ⟨rfl, Kept.rfl, Nat.lt_of_not_le hfit⟩⟩⟩

theorem Building.beginNode (h : Building fdt p) {name : CString}
    (hname : name.length < 2 ^ 31 - 1) :
    ∃ r fdt' p', fdtBeginNode name fdt = .ok (r, fdt') ∧ Building fdt' p' ∧
      Called p p' (.beginNode name) r := by
  have halign := fdtTagalign_bounds (name.length + 1)
  have htag : (cpuToFdt32 fdtBeginNodeTag).length = 4 := BigEndian.bytes_length 4 _
  have hsize : Piece.size (.beginNode name) = 4 + fdtTagalign (name.length + 1) := by
    simp [Piece.size, Piece.head, Piece.body, cpuToFdt32]
  simp only [fdtBeginNode, h.probe,
    h.grab (show 4 + fdtTagalign (name.length + 1) < 2 ^ 32 by omega), bind, Except.bind, pure,
    Except.pure]
  rw [if_neg (not_not.mpr rfl), ← hsize]
  by_cases hfit : Piece.size (.beginNode name) ≤ p.gap.length
  · obtain ⟨g, gap, hgap, hg, hhas⟩ := h.grabbed hfit
    have hsum := congrArg List.length hgap
    rw [List.length_append, hg] at hsum
    -- the tag, the name and what is left of the space
    obtain ⟨g₀, g', rfl, hg₀⟩ := split_gap (show 4 ≤ g.length by omega)
    rw [List.length_append] at hg
    obtain ⟨g₁, pad, rfl, hg₁⟩ := split_gap (show name.length + 1 ≤ g'.length by omega)
    rw [List.length_append] at hg
    rw [List.append_assoc g₀, List.append_assoc g₁] at hhas
    obtain ⟨fdt₁, hstore₁, hhas₁, haddr₁⟩ :=
      hhas.store (cpuToFdt32 fdtBeginNodeTag) rfl (hg₀.trans htag.symm)
    obtain ⟨fdt₂, hstore₂, hhas₂, haddr₂⟩ := hhas₁.storeAfter (strBytes name)
      (by rw [htag]) (hg₁.trans (strBytes_length name).symm)
    have hpad : ((Piece.beginNode name).head ++ ((Piece.beginNode name).body ++ pad)).length =
        Piece.size (.beginNode name) := by
      rw [List.length_append, List.length_append]
      exact htag.symm ▸ (strBytes_length name).symm ▸ by omega
    obtain ⟨hlaid, hb⟩ := h.stored (.beginNode name) trivial hsum.symm hpad hhas₂
      (haddr₂.trans haddr₁)
    rw [if_pos hfit]
    simp only [hstore₁, hstore₂]
    exact ⟨_, _, _, rfl, hb, ⟨Or.inl ⟨rfl, ⟨rfl, rfl, rfl, ⟨_, _, rfl, hlaid, .beginNode name⟩,
      ⟨[], rfl, Nat.zero_le _⟩, Parts.total_grown (by rw [hlaid.length, hsum])⟩,
      by rw [FdtTag.cost, hsum, hsize, Nat.add_comm]⟩⟩⟩
  · rw [if_neg hfit]
    exact ⟨_, _, p, rfl, h, ⟨Or.inr ⟨rfl, Kept.rfl, by rw [FdtTag.cost]; omega⟩⟩⟩

theorem Piece.size_prop (nameoff : Nat) (value : Bytes) :
    Piece.size (.prop nameoff value) = 12 + fdtTagalign value.length := by
  simp [Piece.size, Piece.head, Piece.body, cpuToFdt32]

theorem Building.storeProperty (h : Building fdt p) {nameoff : Nat} {value : Bytes}
    (hoff : nameoff < 2 ^ 32) (hvalue : value.length < 2 ^ 31)
    (hfit : Piece.size (.prop nameoff value) ≤ p.gap.length) :
    ∃ fdt₁ fdt₂ fdt₃ fdt' bs gap,
      (fdt.setSizeDtStruct (p.block.length + Piece.size (.prop nameoff value))).store
        (40 + (p.rsv ++ p.block).length) (cpuToFdt32 fdtPropTag) = .ok fdt₁ ∧
      fdt₁.store (40 + (p.rsv ++ p.block).length + 8) (cpuToFdt32 nameoff) = .ok fdt₂ ∧
      fdt₂.store (40 + (p.rsv ++ p.block).length + 4) (cpuToFdt32 value.length) = .ok fdt₃ ∧
      fdt₃.store (40 + (p.rsv ++ p.block).length + 12) value = .ok fdt' ∧
      Piece.size (.prop nameoff value) + gap.length = p.gap.length ∧
      Laid (.prop nameoff value) bs ∧
      Building fdt' { p with block := p.block ++ bs, gap := gap } := by
  have hword : ∀ v, (cpuToFdt32 v).length = 4 := BigEndian.bytes_length 4
  have halign := fdtTagalign_bounds value.length
  have hsize := Piece.size_prop nameoff value
  obtain ⟨g, gap, hgap, hg, hhas⟩ := h.grabbed hfit
  have hsum := congrArg List.length hgap
  rw [List.length_append, hg] at hsum
  -- the three words, the value and what is left of the space
  obtain ⟨g₀, g', rfl, hg₀⟩ := split_gap (show 4 ≤ g.length by omega)
  rw [List.length_append] at hg
  obtain ⟨g₁, g'', rfl, hg₁⟩ := split_gap (show 4 ≤ g'.length by omega)
  rw [List.length_append] at hg
  obtain ⟨g₂, g''', rfl, hg₂⟩ := split_gap (show 4 ≤ g''.length by omega)
  rw [List.length_append] at hg
  obtain ⟨g₃, pad, rfl, hg₃⟩ := split_gap (show value.length ≤ g'''.length by omega)
  rw [List.length_append] at hg
  rw [List.append_assoc g₀, List.append_assoc g₁, List.append_assoc g₂, List.append_assoc g₃]
    at hhas
  have h8 : (cpuToFdt32 fdtPropTag ++ g₁).length = 8 := by
    rw [List.length_append, hword, hg₁]
  have h12 : (cpuToFdt32 fdtPropTag ++ (cpuToFdt32 value.length ++ cpuToFdt32 nameoff)).length =
      12 := by
    rw [List.length_append, List.length_append, hword, hword, hword]
  obtain ⟨fdt₁, hstore₁, hhas₁, haddr₁⟩ :=
    hhas.store (cpuToFdt32 fdtPropTag) rfl (hg₀.trans (hword _).symm)
  rw [← List.append_assoc _ g₁] at hhas₁
  obtain ⟨fdt₂, hstore₂, hhas₂, haddr₂⟩ := hhas₁.storeAfter (cpuToFdt32 nameoff)
    (by rw [h8]) (hg₂.trans (hword _).symm)
  rw [List.append_assoc _ g₁] at hhas₂
  obtain ⟨fdt₃, hstore₃, hhas₃, haddr₃⟩ := hhas₂.storeAfter (cpuToFdt32 value.length)
    (by rw [hword]) (hg₁.trans (hword _).symm)
  rw [← List.append_assoc (cpuToFdt32 value.length), ← List.append_assoc (cpuToFdt32 fdtPropTag)]
    at hhas₃
  obtain ⟨fdt₄, hstore₄, hhas₄, haddr₄⟩ := hhas₃.storeAfter value (by rw [h12]) hg₃
  have hpad : ((Piece.prop nameoff value).head ++ ((Piece.prop nameoff value).body ++ pad)).length =
      Piece.size (.prop nameoff value) := by
    simp [hsize, Piece.head, Piece.body, cpuToFdt32]
    omega
  obtain ⟨hlaid, hb⟩ := h.stored (.prop nameoff value) ⟨hoff, hvalue⟩ hsum.symm hpad hhas₄
    (haddr₄.trans (haddr₃.trans (haddr₂.trans haddr₁)))
  exact ⟨fdt₁, fdt₂, fdt₃, fdt₄, _, gap, hstore₁, hstore₂, hstore₃, hstore₄, hsum.symm, hlaid, hb⟩

theorem toUint_lt (n : Int) : toUint n < 2 ^ 32 := by
  simp only [toUint]
  omega

theorem Building.property_named (h : Building fdt p) {start : FdtBuf} {name : CString}
    {nameoff : Int} {allocated : Bool} {value : Bytes} (hprobe : fdtSwProbeStruct start = 0)
    (hname : propertyName name start = .ok (nameoff, allocated, fdt)) (hne : nameoff ≠ 0)
    (hvalue : value.length < 2 ^ 31) :
    (∃ fdt' bs gap, fdtProperty name value start = .ok (0, fdt') ∧
      12 + fdtTagalign value.length + gap.length = p.gap.length ∧
      Laid (.prop (toUint nameoff) value) bs ∧
      Building fdt' { p with block := p.block ++ bs, gap := gap }) ∨
    (p.gap.length < 12 + fdtTagalign value.length ∧ fdtProperty name value start =
      .ok (-fdtErrNospace, if allocated then fdtDelLastString name fdt else fdt)) := by
  have halign := fdtTagalign_bounds value.length
  have hsize := Piece.size_prop (toUint nameoff) value
  simp only [fdtProperty, fdtPropertyPlaceholder, hprobe, hname,
    h.grab (show 12 + fdtTagalign value.length < 2 ^ 32 by omega), bind, Except.bind, pure,
    Except.pure]
  rw [if_neg (not_not.mpr rfl), if_neg hne, ← hsize]
  by_cases hfit : Piece.size (.prop (toUint nameoff) value) ≤ p.gap.length
  · obtain ⟨fdt₁, fdt₂, fdt₃, fdt', bs, gap, h₁, h₂, h₃, h₄, hgap, hlaid, hb⟩ :=
      h.storeProperty (toUint_lt nameoff) hvalue hfit
    rw [if_pos hfit]
    simp only [h₁, h₂, h₃, h₄]
    exact Or.inl ⟨fdt', bs, gap, rfl, hgap, hlaid, hb⟩
  · rw [if_neg hfit]
    exact Or.inr ⟨Nat.lt_of_not_le hfit, rfl⟩

def Parts.needs (p : Parts) (name : CString) (value : Bytes) : Nat :=
  (if p.finds name then 0 else name.length + 1) + (12 + fdtTagalign value.length)

theorem Parts.needs_le (p : Parts) (name : CString) (value : Bytes) :
    p.needs name value ≤ (FdtTag.property name value).cost := by
  rw [needs, FdtTag.cost]
  split <;> omega

/-- A property whose name the strings could hold is put if there is room for it. -/
theorem Building.property_room (h : Building fdt p) {name : CString} {value : Bytes}
    (hname : p.finds name = false → p.strs.length + (name.length + 1) ≤ p.total)
    (hvalue : value.length < 2 ^ 31) :
    ∃ r fdt' p', fdtProperty name value fdt = .ok (r, fdt') ∧ Building fdt' p' ∧
      Called p p' (.property name value) r ∧ (r = 0 ↔ p.needs name value ≤ p.gap.length) := by
  have hle := p.needs_le name value
  cases hfinds : p.finds name with
  | true =>
    obtain ⟨nameoff, hne, hnamed, hrun⟩ := h.property_found hfinds
    have hneeds : p.needs name value = 12 + fdtTagalign value.length := by
      rw [Parts.needs, hfinds, if_pos rfl, Nat.zero_add]
    rcases h.property_named h.probe hrun hne hvalue with ⟨fdt', bs, gap, hrun', hgap, hlaid, hb⟩ |
      ⟨hfull, hrun'⟩
    · exact ⟨_, _, _, hrun', hb, ⟨Or.inl ⟨rfl, ⟨rfl, rfl, rfl,
        ⟨bs, _, rfl, hlaid, .property value hnamed⟩, ⟨[], rfl, Nat.zero_le _⟩,
        Parts.total_grown (by rw [hlaid.length, Piece.size_prop, hgap])⟩,
        by dsimp only; omega⟩⟩, by simp only [true_iff]; omega⟩
    · exact ⟨_, _, p, hrun', h, ⟨Or.inr ⟨rfl, Kept.rfl, by omega⟩⟩,
        iff_of_false (by decide) (by omega)⟩
  | false =>
    have hneeds : p.needs name value = name.length + 1 + (12 + fdtTagalign value.length) := by
      rw [Parts.needs, hfinds, if_neg Bool.false_ne_true]
    rcases h.property_added hfinds (hname hfinds) with ⟨hfull, hrun⟩ |
      ⟨nameoff, fdt₁, gap₁, hne, hgap₁, hnamed, hrun, hb₁⟩
    · refine ⟨-fdtErrNospace, fdt, p, ?_, h, ⟨Or.inr ⟨rfl, Kept.rfl, by omega⟩⟩,
        iff_of_false (by decide) (by omega)⟩
      simp only [fdtProperty, fdtPropertyPlaceholder, h.probe, hrun, bind, Except.bind, pure,
        Except.pure]
      rw [if_neg (not_not.mpr rfl), if_pos trivial]
    · rcases hb₁.property_named h.probe hrun hne hvalue with
        ⟨fdt', bs, gap, hrun', hgap, hlaid, hb⟩ | ⟨hfull, hrun'⟩
      · have htotal : Parts.total { p with gap := gap₁, strs := strBytes name ++ p.strs } =
            p.total :=
          Parts.total_moved (by rw [List.length_append, strBytes_length]; omega)
        dsimp only at hgap
        exact ⟨_, _, _, hrun', hb, ⟨Or.inl ⟨rfl, ⟨rfl, rfl, rfl,
          ⟨bs, _, rfl, hlaid, .property value hnamed⟩,
          ⟨_, rfl, Nat.le_of_eq (strBytes_length name)⟩,
          (Parts.total_grown (by rw [hlaid.length, Piece.size_prop, hgap])).trans htotal⟩,
          by dsimp only; omega⟩⟩, by simp only [true_iff]; omega⟩
      · dsimp only at hfull
        refine ⟨_, _, _, hrun', hb₁.delLastString rfl, ⟨Or.inr ⟨rfl, ⟨rfl, ?_⟩, by omega⟩⟩,
          iff_of_false (by simp [fdtErrNospace]) (by omega)⟩
        rw [List.length_append, strBytes_length]
        exact hgap₁

/-- A property whose name alone is too long for the buffer is written outside of it. -/
theorem Building.property_wild (h : Building fdt p) {name : CString} {value : Bytes}
    (hfinds : p.finds name = false) (hname : name.length + 1 < 2 ^ 31)
    (hwrap : p.total < p.strs.length + (name.length + 1)) :
    fdtProperty name value fdt = .error .wild := by
  simp only [fdtProperty, fdtPropertyPlaceholder, h.probe, h.property_missing hfinds,
    h.addString_wild hname hwrap, bind, Except.bind]
  rw [if_neg (not_not.mpr rfl)]

theorem Building.property (h : Building fdt p) {name : CString} {value : Bytes}
    (hname : name.length < 2 ^ 31 - 1) (hvalue : value.length < 2 ^ 31) :
    (fdtProperty name value fdt = .error .wild ∧
      p.total < p.strs.length + (FdtTag.property name value).nameSize) ∨
    ∃ r fdt' p', fdtProperty name value fdt = .ok (r, fdt') ∧ Building fdt' p' ∧
      Called p p' (.property name value) r := by
  by_cases hwrap : p.finds name = false ∧ p.total < p.strs.length + (name.length + 1)
  · exact Or.inl ⟨h.property_wild hwrap.1 (by omega) hwrap.2, hwrap.2⟩
  · obtain ⟨r, fdt', p', hrun, hb, hcalled, -⟩ := h.property_room
      (fun hfinds => Nat.not_lt.mp fun hlt => hwrap ⟨hfinds, hlt⟩) hvalue
    exact Or.inr ⟨r, fdt', p', hrun, hb, hcalled⟩

/-- While a tree is built, `fdt_property` writes outside of the buffer when the name is not among
the strings and the strings with this name are longer than the buffer, and only then. It returns 0
when there is room for the property, and else leaves the tree as it is. -/
theorem fdtProperty_exact (h : Building fdt p) {name : CString} {value : Bytes}
    (hname : name.length + 1 < 2 ^ 31) (hvalue : value.length < 2 ^ 31) :
    (fdtProperty name value fdt = .error .wild ↔
      p.finds name = false ∧ p.total < p.strs.length + (name.length + 1)) ∧
    (fdtProperty name value fdt ≠ .error .wild → ∃ r fdt' p',
      fdtProperty name value fdt = .ok (r, fdt') ∧ Building fdt' p' ∧
        (r = 0 ↔ p.needs name value ≤ p.gap.length) ∧
        (r = 0 → Added p p' (.property name value)) ∧
        (r ≠ 0 → r = -fdtErrNospace ∧ Kept p p')) := by
  by_cases hwrap : p.finds name = false ∧ p.total < p.strs.length + (name.length + 1)
  · have hwild : fdtProperty name value fdt = .error .wild :=
      h.property_wild hwrap.1 hname hwrap.2
    exact ⟨iff_of_true hwild hwrap, fun hne => absurd hwild hne⟩
  · obtain ⟨r, fdt', p', hrun, hb, ⟨hcode⟩, hroom⟩ := h.property_room
      (fun hfinds => Nat.not_lt.mp fun hlt => hwrap ⟨hfinds, hlt⟩) hvalue
    refine ⟨iff_of_false (by simp [hrun]) hwrap,
      fun _ => ⟨r, fdt', p', hrun, hb, hroom, fun hr => ?_, fun hr => ?_⟩⟩
    · rcases hcode with ⟨-, hadded, -⟩ | ⟨hfull, -⟩
      · exact hadded
      · exact absurd (hfull.symm.trans hr) (by decide)
    · rcases hcode with ⟨hzero, -⟩ | ⟨hfull, hkept, -⟩
      · exact absurd hzero hr
      · exact ⟨hfull, hkept⟩

/-- A tree of which nothing is there, with 40 free bytes. -/
def emptyParts : Parts := ⟨0, 0, List.replicate 24 0, [], List.replicate 40 0, []⟩

def emptyDraft : FdtBuf :=
  ⟨0, BigEndian.table 4 emptyParts.header.words ++ emptyParts.rest, by decide⟩

theorem emptyDraft_building : Building emptyDraft emptyParts where
  has := ⟨rfl, by decide⟩
  addr := rfl
  rsv := by decide
  int := by decide

theorem fdtProperty_exact_long :
    fdtProperty (List.replicate 200 slash) [1] emptyDraft = .error .wild :=
  have hlong : (List.replicate 200 slash).length + 1 < 2 ^ 31 := by
    rw [List.length_replicate]
    decide
  (fdtProperty_exact emptyDraft_building hlong (by decide)).1.mpr ⟨rfl, by
    rw [List.length_replicate]
    decide⟩

theorem Building.call (h : Building fdt p) {tag : FdtTag} (hsmall : tag.Small) :
    (tag.call fdt = .error .wild ∧ p.total < p.strs.length + tag.nameSize) ∨
    ∃ r fdt' p', tag.call fdt = .ok (r, fdt') ∧ Building fdt' p' ∧ Called p p' tag r := by
  cases tag with
  | beginNode name => exact Or.inr (h.beginNode hsmall)
  | property name value => exact h.property hsmall.1 hsmall.2
  | endNode => exact Or.inr h.endNode

end

end Xenlib.Libfdt
