import Xenlib.FdtAccepted

/-!
The values of properties: `fdt_getprop` finds the first property of a name in the node that a path
leads to.
-/

set_option autoImplicit false

namespace Xenlib.Libfdt

variable {fdt : FdtBuf} {off next nameoff : Nat} {name s : CString} {value : Bytes}

theorem propertyByOffset_here (h : Readable fdt) (hoff : off % fdtTagsize = 0)
    (hp : PieceAt fdt off (.prop nameoff value) next) :
    propertyByOffset fdt off = .ok (.ok ⟨fdt.offDtStruct + off, (value.length : Int)⟩) := by
  have hversion := h.version
  have hget := fdtGetPropertyByOffset_here h hoff hp
  rwa [fdtGetPropertyByOffset, if_neg (by omega)] at hget

theorem fdtStringEq_here (hname : fdtGetString fdt (toInt nameoff) = .ok (.ok name))
    (s : CString) : fdtStringEq fdt (toInt nameoff) s = .ok (decide (name = s)) := by
  simp only [fdtStringEq, hname, bind, Except.bind]
  rfl

theorem propertyNamelen_property (h : Readable fdt) (hoff : off % fdtTagsize = 0)
    (hp : PieceAt fdt off (.prop nameoff value) next)
    (hname : fdtGetString fdt (toInt nameoff) = .ok (.ok name)) {propoff : Int}
    (hnext : nextProp fdt (fdt.mem.length + 1) next = .ok propoff) (s : CString) (k : Nat) :
    propertyNamelen fdt s (k + 1) off =
      if name = s then .ok (.ok (off, ⟨fdt.offDtStruct + off, (value.length : Int)⟩))
      else propertyNamelen fdt s k propoff := by
  obtain ⟨-, -, hnameoff, -⟩ := hp.holds
  rw [propertyNamelen, if_neg (Int.not_lt.mpr (Int.natCast_nonneg off))]
  simp only [propertyByOffset_here h hoff hp, hnameoff, fdtStringEq_here hname, decide_eq_true_eq,
    fdtNextPropertyOffset_here hoff hp, hnext, bind, Except.bind, pure, Except.pure]

theorem propertyData_here (h : Readable fdt) (hp : PieceAt fdt off (.prop nameoff value) next) :
    propertyData fdt off ⟨fdt.offDtStruct + off, (value.length : Int)⟩ =
      .ok (fdt.offDtStruct + off + 12) := by
  obtain ⟨-, hlen, -, -⟩ := hp.holds
  have hversion := h.version
  simp only [propertyData, hlen, bind, Except.bind, pure, Except.pure]
  rw [if_neg fun hold => by omega]

def Located (fdt : FdtBuf) (r : Except FdtStop (Except Int (Int × PropertyPtr))) :
    Option FdtProperty → Prop
  | none => r = .ok (.error (-fdtErrNotfound))
  | some p => ∃ off nameoff next : Nat,
      r = .ok (.ok (off, ⟨fdt.offDtStruct + off, (p.value.length : Int)⟩)) ∧
      PieceAt fdt off (.prop nameoff p.value) next

theorem propertyNamelen_notfound (s : CString) {rounds : Nat} (hrounds : 0 < rounds) :
    Located fdt (propertyNamelen fdt s rounds (-fdtErrNotfound)) none := by
  obtain ⟨k, rfl⟩ := Nat.exists_eq_add_of_le' hrounds
  rw [propertyNamelen]
  exact if_pos (by decide)

theorem propertyNamelen_items (h : Readable fdt) (s : CString) (items : FdtItems)
    {rest : List FdtTag} (hw : Walk fdt off (items.tags ++ (.endNode :: rest)))
    (hoff : off % fdtTagsize = 0) :
    ∃ propoff, nextProp fdt (fdt.mem.length + 1) off = .ok propoff ∧
      ∀ rounds, items.tags.length < rounds →
        Located fdt (propertyNamelen fdt s rounds propoff)
          (items.leading.find? fun p => p.name = s) := by
  induction items generalizing off with
  | nil =>
    exact ⟨_, nextProp_notfound hw (fun _ _ => FdtTag.noConfusion) (rounds_start h.framed off),
      fun rounds hrounds => propertyNamelen_notfound s hrounds⟩
  | node name content items =>
    exact ⟨_, nextProp_notfound hw (fun _ _ => FdtTag.noConfusion) (rounds_start h.framed off),
      fun rounds hrounds => propertyNamelen_notfound s (Nat.lt_of_le_of_lt (Nat.zero_le _) hrounds)⟩
  | property p items ih =>
    obtain ⟨n, hn, hhere⟩ := nextProp_property hw hoff (rounds_start h.framed off)
    obtain ⟨next, nameoff, hnext, hname, hp, hrest⟩ := hhere.property
    obtain ⟨propoff, hpropoff, hfound⟩ := ih hrest hnext
    refine ⟨n, hn, fun rounds hrounds => ?_⟩
    simp only [FdtItems.tags, List.length_cons] at hrounds
    obtain ⟨k, rfl⟩ := Nat.exists_eq_add_of_le' (show 1 ≤ rounds by omega)
    rw [propertyNamelen_property h hhere.aligned hp hname hpropoff, FdtItems.leading,
      List.find?_cons]
    by_cases hs : p.name = s
    · rw [if_pos hs, decide_eq_true hs]
      exact ⟨n, nameoff, next, rfl, hp⟩
    · rw [if_neg hs, decide_eq_false hs]
      exact hfound k (by omega)

def Valued (fdt : FdtBuf) (r : Except FdtStop (Except Int (Nat × Int))) :
    Option FdtProperty → Prop
  | none => r = .ok (.error (-fdtErrNotfound))
  | some p => ∃ value : Nat, r = .ok (.ok (value, (p.value.length : Int))) ∧
      fdt.bytes value p.value.length = .ok p.value

theorem fdtGetpropNamelen_stands (h : Readable fdt) {content : FdtItems}
    (hstands : Stands fdt off name content) (s : CString) :
    Valued fdt (fdtGetpropNamelen fdt off s) (content.leading.find? fun p => p.name = s) := by
  obtain ⟨rest, hhere⟩ := hstands
  obtain ⟨next, hnext, hp, hw⟩ := hhere.beginNode
  obtain ⟨propoff, hpropoff, hfound⟩ := propertyNamelen_items h s content hw hnext
  have hroom := hw.room
  have hsize := h.framed.size
  rw [List.length_append] at hroom
  have hlocated := hfound (fdt.mem.length + 1) (by omega)
  simp only [fdtGetpropNamelen, fdtFirstPropertyOffset_here hhere.aligned hp, hpropoff, bind,
    Except.bind, pure, Except.pure]
  cases hprop : content.leading.find? fun p => p.name = s with
  | none =>
    rw [hprop] at hlocated
    rw [show propertyNamelen fdt s (fdt.mem.length + 1) propoff = _ from hlocated]
    rfl
  | some p =>
    rw [hprop] at hlocated
    obtain ⟨off', nameoff, next', hrun, hp'⟩ := hlocated
    rw [hrun]
    simp only [propertyData_here h hp']
    exact ⟨_, rfl, hp'.holds.2.2.2⟩

/-- What a property of this name is at a path that leads to this node, or nowhere. -/
def PropertyAt (fdt : FdtBuf) (path s : CString) : Option (CString × FdtItems) → Prop
  | none => fdtPathOffset fdt path = .ok (-fdtErrNotfound)
  | some node => ∃ n : Nat, fdtPathOffset fdt path = .ok (n : Int) ∧
      Valued fdt (fdtGetpropNamelen fdt n s) (node.2.leading.find? fun p => p.name = s)

theorem propertyAt_root (h : Readable fdt) {content : FdtItems} (hroot : Stands fdt 0 [] content)
    {path : CString} (habs : xenstoreIsAbsPath path = true) (s : CString) :
    PropertyAt fdt path s (FdtItems.lookup (tokens path) ([], content)) := by
  obtain ⟨r, hr, hof⟩ := fdtPathOffset_root h hroot habs
  cases hfound : FdtItems.lookup (tokens path) ([], content) with
  | none =>
    rw [hfound] at hof
    exact hr.trans (congrArg Except.ok hof)
  | some node =>
    rw [hfound] at hof
    obtain ⟨n, rfl, hn⟩ := hof
    exact ⟨n, hr, fdtGetpropNamelen_stands h hn s⟩

/-- In a tree that the full check accepts, a path and a name give the value of the first property
of this name in the node of the path, or that there is none. -/
theorem getprop_accepted (fdt : FdtBuf) (bufsize : Nat) (h : Rooted fdt bufsize)
    (hfull : fdtCheckFull fdt bufsize = .ok 0) :
    ∃ content, Enumerated fdt content ∧
      ∀ path, xenstoreIsAbsPath path = true → ∀ s,
        PropertyAt fdt path s (FdtItems.lookup (tokens path) ([], content)) := by
  obtain ⟨-, hread, content, hw⟩ := h.walk hfull
  obtain ⟨next, name, hp⟩ := h.beginNode
  refine ⟨content, hread.enumerated hp hw, fun path habs s => ?_⟩
  exact propertyAt_root hread (hp.stands hw) habs s

theorem getprop_accepted_small : ∃ content, Enumerated smallTree content ∧
    ∀ path, xenstoreIsAbsPath path = true → ∀ s,
      PropertyAt smallTree path s (FdtItems.lookup (tokens path) ([], content)) :=
  getprop_accepted smallTree 104 ⟨by decide, by decide, by decide, by decide, by decide +kernel⟩
    (by decide +kernel)

end Xenlib.Libfdt
