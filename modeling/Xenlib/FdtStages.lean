import Xenlib.FdtFinish

/-!
The states of the sequential writer over runs of calls. The functions of libfdt tell the states
apart by the magic number and the offset of the strings.
-/

set_option autoImplicit false

namespace Xenlib.Libfdt

/-- What a tree is for: first its reservations, then its tags, and then it is a tree to read. -/
inductive Stage where
  | reserving (entries : List (Nat × Nat))
  | building (entries : List (Nat × Nat)) (tags : List FdtTag)
  | complete (entries : List (Nat × Nat)) (tags : List FdtTag)
  deriving DecidableEq, Repr

inductive WriterCall where
  | addReservemapEntry (addr size : Nat)
  | finishReservemap
  | put (tag : FdtTag)
  | finish
  deriving DecidableEq, Repr

namespace WriterCall

def call : WriterCall → FdtCall
  | .addReservemapEntry addr size => fdtAddReservemapEntry addr size
  | .finishReservemap => fdtFinishReservemap
  | .put tag => tag.call
  | .finish => fdtFinish

def Small : WriterCall → Prop
  | .put tag => tag.Small
  | _ => True

def cost : WriterCall → Nat
  | .addReservemapEntry _ _ => 16
  | .finishReservemap => 16
  | .put tag => tag.cost
  | .finish => 4

end WriterCall

def Stage.next : Stage → WriterCall → Option Stage
  | .reserving es, .addReservemapEntry addr size => some (.reserving (es ++ [(addr, size)]))
  | .reserving es, .finishReservemap => some (.building es [])
  | .building es tags, .put tag => some (.building es (tags ++ [tag]))
  | .building es tags, .finish => some (.complete es tags)
  | _, _ => none

/-- The property has a name of 64 characters or more, which with the names before it is longer than
the buffer. -/
structure Overlong (total : Nat) (tags : List FdtTag) (tag : FdtTag) : Prop where
  name : 64 < tag.nameSize
  strings : total < (tags.map FdtTag.nameSize).sum + tag.nameSize

/-- The padding of the header and the entries. -/
def reserved (entries : List (Nat × Nat)) : Bytes :=
  List.replicate 8 0 ++ entries.flatMap fun e => cpuToFdt64 e.1 ++ cpuToFdt64 e.2

theorem reserved_append (entries : List (Nat × Nat)) (addr size : Nat) :
    reserved (entries ++ [(addr, size)]) =
      reserved entries ++ (cpuToFdt64 addr ++ cpuToFdt64 size) := by
  simp [reserved]

theorem reserved_length (entries : List (Nat × Nat)) :
    (reserved entries).length = 8 + 16 * entries.length := by
  induction entries using List.reverseRecOn with
  | nil => rfl
  | append_singleton entries e ih =>
    rw [reserved_append, List.length_append, List.length_append, ih, cpuToFdt64, cpuToFdt64,
      BigEndian.bytes_length, BigEndian.bytes_length, List.length_append, List.length_singleton]
    omega

structure Reserving (fdt : FdtBuf) (flags : Nat) (rsv gap : Bytes) : Prop where
  has : Has fdt ⟨fdtSwMagic, fdt.mem.length, 40 + rsv.length, 0, flags, 0, 0⟩ (rsv ++ gap)
  int : fdt.mem.length < 2 ^ 31

/-- The buffer shows this stage, with so many bytes that are free. -/
def Shows (fdt : FdtBuf) (free : Nat) : Stage → Prop
  | .reserving es => ∃ flags gap, Reserving fdt flags (reserved es) gap ∧ gap.length = free
  | .building es tags => ∃ p pieces, Building fdt p ∧ p.rsv = reserved (es ++ [(0, 0)]) ∧
      LaidAll pieces p.block ∧ List.Forall₂ (Stated p.strs) pieces tags ∧
      p.strs.length ≤ (tags.map FdtTag.nameSize).sum ∧ p.gap.length = free
  | .complete es tags => ∃ block strs left pieces,
      Complete fdt (reserved (es ++ [(0, 0)])) block strs left ∧
      LaidAll (pieces ++ [.finish]) block ∧ List.Forall₂ (Final strs) pieces tags

section
variable {fdt : FdtBuf} {flags : Nat} {rsv gap : Bytes}

theorem Reserving.probe (h : Reserving fdt flags rsv gap) : fdtSwProbeMemrsv fdt = 0 := by
  have hsw : fdtSwProbe fdt = 0 := by
    rw [fdtSwProbe, h.has.magic]
    rfl
  rw [fdtSwProbeMemrsv, hsw, h.has.offDtStrings]
  rfl

theorem Reserving.addReservemapEntry (h : Reserving fdt flags rsv gap) (addr size : Nat) :
    (gap.length < 16 ∧ fdtAddReservemapEntry addr size fdt = .ok (-fdtErrNospace, fdt)) ∨
    ∃ fdt' gap', fdtAddReservemapEntry addr size fdt = .ok (0, fdt') ∧
      Reserving fdt' flags (rsv ++ (cpuToFdt64 addr ++ cpuToFdt64 size)) gap' ∧
      gap'.length + 16 = gap.length ∧ fdt'.addr = fdt.addr ∧ fdt'.mem.length = fdt.mem.length := by
  have hint := h.int
  have hlen := h.has.length
  rw [List.length_append] at hlen
  have hdata : (cpuToFdt64 addr ++ cpuToFdt64 size).length = 16 := by
    rw [List.length_append, cpuToFdt64, cpuToFdt64, BigEndian.bytes_length, BigEndian.bytes_length]
  simp only [fdtAddReservemapEntry, h.probe, h.has.totalsize, h.has.offDtStruct, bind, Except.bind,
    pure, Except.pure]
  rw [if_neg (not_not.mpr rfl)]
  by_cases hfit : gap.length < 16
  · exact Or.inl ⟨hfit, if_pos (by omega)⟩
  · obtain ⟨g, gap', hgap, hg⟩ := split_gap (Nat.not_lt.mp hfit)
    have hsum := congrArg List.length hgap
    rw [List.length_append, hg] at hsum
    have hhas := h.has
    rw [hgap] at hhas
    obtain ⟨fdt₁, hstore, hhas₁, haddr⟩ :=
      hhas.store (cpuToFdt64 addr ++ cpuToFdt64 size) rfl (hg.trans hdata.symm)
    have hlen₁ : fdt₁.mem.length = fdt.mem.length := by
      rw [hhas₁.length, hhas.length]
      simp only [List.length_append] at hdata ⊢
      omega
    have hhas₂ : Has (fdt₁.setOffDtStruct (40 + rsv.length + 16))
        ⟨fdtSwMagic, fdt.mem.length, 40 + rsv.length + 16, 0, flags, 0, 0⟩ _ :=
      hhas₁.set 2 (by omega) rfl
    have hlen₂ : (fdt₁.setOffDtStruct (40 + rsv.length + 16)).mem.length = fdt.mem.length := by
      rw [hhas₂.length, ← hhas₁.length, hlen₁]
    refine Or.inr ⟨fdt₁.setOffDtStruct (40 + rsv.length + 16), gap', ?_, ⟨?_, hlen₂ ▸ h.int⟩,
      by omega, haddr, hlen₂⟩
    · rw [if_neg (by omega)]
      simp only [hstore]
    · rw [hlen₂, List.length_append, hdata, List.append_assoc, ← Nat.add_assoc]
      exact hhas₂

theorem Reserving.finishReservemap (h : Reserving fdt flags rsv gap) (hrsv : 8 ≤ rsv.length) :
    (gap.length < 16 ∧ fdtFinishReservemap fdt = .ok (-fdtErrNospace, fdt)) ∨
    ∃ fdt' gap', fdtFinishReservemap fdt = .ok (0, fdt') ∧
      Building fdt' ⟨fdt.addr, flags, rsv ++ (cpuToFdt64 0 ++ cpuToFdt64 0), [], gap', []⟩ ∧
      gap'.length + 16 = gap.length := by
  have hint := h.int
  rcases h.addReservemapEntry 0 0 with ⟨hfull, hrun⟩ | ⟨fdt₁, gap', hrun, hres, hgap, haddr, hlen⟩
  · refine Or.inl ⟨hfull, ?_⟩
    simp only [fdtFinishReservemap, hrun, bind, Except.bind, pure, Except.pure]
    exact if_pos (by decide)
  · have hdata : (rsv ++ (cpuToFdt64 0 ++ cpuToFdt64 0)).length = rsv.length + 16 := by
      rw [List.length_append]
      rfl
    have hlen₁ := hres.has.length
    rw [List.length_append, hdata] at hlen₁
    refine Or.inr ⟨fdt₁.setOffDtStrings fdt₁.totalsize, gap', ?_, ⟨?_, haddr, ?_, ?_⟩, hgap⟩
    · simp only [fdtFinishReservemap, hrun, bind, Except.bind, pure, Except.pure]
      exact if_neg (not_not.mpr rfl)
    · have hheader : Parts.header ⟨fdt.addr, flags, rsv ++ (cpuToFdt64 0 ++ cpuToFdt64 0), [], gap',
          []⟩ = ⟨fdtSwMagic, fdt₁.mem.length, 40 + (rsv ++ (cpuToFdt64 0 ++ cpuToFdt64 0)).length,
            fdt₁.mem.length, flags, 0, 0⟩ := by
        simp only [Parts.header, Parts.total, List.length_nil, hdata, hlen₁]
        simp only [Nat.add_zero, Nat.add_assoc]
      rw [hheader, hres.has.totalsize]
      have hset : Has (fdt₁.setOffDtStrings fdt₁.mem.length) ⟨fdtSwMagic, fdt₁.mem.length,
          40 + (rsv ++ (cpuToFdt64 0 ++ cpuToFdt64 0)).length, fdt₁.mem.length, flags, 0, 0⟩ _ :=
        hres.has.set 3 (by omega) rfl
      simpa only [Parts.rest, List.nil_append, List.append_nil] using hset
    · dsimp only
      omega
    · simp only [Parts.total, List.length_nil]
      omega

end

section
variable {fdt : FdtBuf}

theorem fdtSwProbe_struct (h : fdtSwProbe fdt = -fdtErrBadstate) :
    fdtSwProbeStruct fdt = -fdtErrBadstate := by
  rw [fdtSwProbeStruct, h]
  rfl

theorem put_refused (h : fdtSwProbeStruct fdt = -fdtErrBadstate) (tag : FdtTag) :
    tag.call fdt = .ok (-fdtErrBadstate, fdt) := by
  have hne : fdtSwProbeStruct fdt ≠ 0 := by
    rw [h]
    decide
  cases tag with
  | beginNode name =>
    rw [FdtTag.call, fdtBeginNode, if_pos hne, h]
    rfl
  | property name value =>
    rw [FdtTag.call, fdtProperty, fdtPropertyPlaceholder, if_pos hne, h]
    rfl
  | endNode =>
    rw [FdtTag.call, fdtEndNode, if_pos hne, h]
    rfl

theorem fdtFinish_refused (h : fdtSwProbeStruct fdt = -fdtErrBadstate) :
    fdtFinish fdt = .ok (-fdtErrBadstate, fdt) := by
  have hne : fdtSwProbeStruct fdt ≠ 0 := by
    rw [h]
    decide
  rw [fdtFinish, if_pos hne, h]
  rfl

theorem addReservemapEntry_refused (h : fdtSwProbeMemrsv fdt = -fdtErrBadstate) (addr size : Nat) :
    fdtAddReservemapEntry addr size fdt = .ok (-fdtErrBadstate, fdt) := by
  have hne : fdtSwProbeMemrsv fdt ≠ 0 := by
    rw [h]
    decide
  rw [fdtAddReservemapEntry, if_pos hne, h]
  rfl

theorem finishReservemap_refused (h : fdtSwProbeMemrsv fdt = -fdtErrBadstate) :
    fdtFinishReservemap fdt = .ok (-fdtErrBadstate, fdt) := by
  simp only [fdtFinishReservemap, addReservemapEntry_refused h, bind, Except.bind, pure,
    Except.pure]
  exact if_pos (by decide)

theorem Reserving.probe_struct {flags : Nat} {rsv gap : Bytes} (h : Reserving fdt flags rsv gap) :
    fdtSwProbeStruct fdt = -fdtErrBadstate := by
  have hsw : fdtSwProbe fdt = 0 := by
    rw [fdtSwProbe, h.has.magic]
    rfl
  have hlen := h.has.length
  rw [fdtSwProbeStruct, hsw, h.has.offDtStrings, h.has.totalsize, if_neg (not_not.mpr rfl),
    if_pos (show 0 ≠ fdt.mem.length by omega)]

theorem Building.probe_memrsv {p : Parts} (h : Building fdt p) :
    fdtSwProbeMemrsv fdt = -fdtErrBadstate := by
  have hsw : fdtSwProbe fdt = 0 := by
    rw [fdtSwProbe, h.has.magic]
    rfl
  rw [fdtSwProbeMemrsv, hsw, h.has.offDtStrings, if_neg (not_not.mpr rfl),
    if_pos (show p.header.offDtStrings ≠ 0 by simp only [Parts.header, Parts.total]; omega)]

theorem Complete.probe {rsv block strs left : Bytes} (h : Complete fdt rsv block strs left) :
    fdtSwProbe fdt = -fdtErrBadstate := by
  rw [fdtSwProbe, h.has.magic]
  rfl

end

def Outcome (fdt : FdtBuf) (free : Nat) (stage : Stage) (c : WriterCall) (r : Int)
    (fdt' : FdtBuf) : Prop :=
  (stage.next c = none ∧ r = -fdtErrBadstate ∧ fdt' = fdt) ∨
  ∃ stage', stage.next c = some stage' ∧
    ((r = 0 ∧ ∃ free', Shows fdt' free' stage' ∧ free ≤ free' + c.cost) ∨
      (r = -fdtErrNospace ∧ free < c.cost ∧ Shows fdt' free stage))

section
variable {fdt : FdtBuf} {free : Nat}

theorem Shows.reserving {es : List (Nat × Nat)} (h : Shows fdt free (.reserving es))
    (c : WriterCall) : ∃ r fdt', c.call fdt = .ok (r, fdt') ∧
      Outcome fdt free (.reserving es) c r fdt' ∧ fdt'.addr = fdt.addr ∧
      fdt'.mem.length = fdt.mem.length := by
  obtain ⟨flags, gap, hres, rfl⟩ := h
  cases c with
  | addReservemapEntry addr size =>
    rcases hres.addReservemapEntry addr size with ⟨hfull, hrun⟩ |
      ⟨fdt', gap', hrun, hres', hgap, haddr, hlen⟩
    · exact ⟨_, fdt, hrun, Or.inr ⟨_, rfl, Or.inr ⟨rfl, hfull, flags, gap, hres, rfl⟩⟩, rfl, rfl⟩
    · rw [← reserved_append] at hres'
      exact ⟨_, fdt', hrun, Or.inr ⟨_, rfl, Or.inl ⟨rfl, gap'.length, ⟨flags, gap', hres', rfl⟩,
        hgap.ge⟩⟩, haddr, hlen⟩
  | finishReservemap =>
    have hrsv := reserved_length es
    rcases hres.finishReservemap (by omega) with ⟨hfull, hrun⟩ | ⟨fdt', gap', hrun, hb, hgap⟩
    · exact ⟨_, fdt, hrun, Or.inr ⟨_, rfl, Or.inr ⟨rfl, hfull, flags, gap, hres, rfl⟩⟩, rfl, rfl⟩
    · rw [← reserved_append] at hb
      refine ⟨_, fdt', hrun, Or.inr ⟨_, rfl, Or.inl ⟨rfl, gap'.length,
        ⟨_, [], hb, rfl, .nil, .nil, Nat.le_refl _, rfl⟩, hgap.ge⟩⟩, hb.addr, ?_⟩
      have hlen := hres.has.length
      have hentry := reserved_length (es ++ [(0, 0)])
      rw [List.length_append] at hlen
      rw [List.length_append, List.length_singleton] at hentry
      rw [hb.length, hlen]
      simp only [Parts.total, List.length_nil]
      omega
  | put tag => exact ⟨_, fdt, put_refused hres.probe_struct tag, Or.inl ⟨rfl, rfl, rfl⟩, rfl, rfl⟩
  | finish => exact ⟨_, fdt, fdtFinish_refused hres.probe_struct, Or.inl ⟨rfl, rfl, rfl⟩, rfl, rfl⟩

theorem Forall₂_snoc {strs strs' : Bytes} {pieces : List Piece} {tags : List FdtTag} {piece : Piece}
    {tag : FdtTag} (h : List.Forall₂ (Stated strs) pieces tags)
    (hgrow : ∃ more, strs' = more ++ strs)
    (hlast : Stated strs' piece tag) :
    List.Forall₂ (Stated strs') (pieces ++ [piece]) (tags ++ [tag]) := by
  obtain ⟨more, rfl⟩ := hgrow
  induction h with
  | nil => exact .cons hlast .nil
  | cons hpiece _ ih =>
    refine .cons ?_ ih
    cases hpiece with
    | beginNode name => exact .beginNode name
    | property value hnamed => exact .property value (hnamed.grow more)
    | endNode => exact .endNode

theorem Shows.building {es : List (Nat × Nat)} {tags : List FdtTag}
    (h : Shows fdt free (.building es tags)) {c : WriterCall} (hsmall : c.Small) :
    (c.call fdt = .error .wild ∧ free < c.cost ∧
      ∃ tag, c = .put tag ∧ Overlong fdt.mem.length tags tag) ∨
    ∃ r fdt', c.call fdt = .ok (r, fdt') ∧ Outcome fdt free (.building es tags) c r fdt' ∧
      fdt'.addr = fdt.addr ∧ fdt'.mem.length = fdt.mem.length := by
  obtain ⟨p, pieces, hb, hrsv, hlaid, hstated, hnames, rfl⟩ := h
  cases c with
  | addReservemapEntry addr size =>
    exact Or.inr ⟨_, fdt, addReservemapEntry_refused hb.probe_memrsv addr size,
      Or.inl ⟨rfl, rfl, rfl⟩, rfl, rfl⟩
  | finishReservemap =>
    exact Or.inr ⟨_, fdt, finishReservemap_refused hb.probe_memrsv, Or.inl ⟨rfl, rfl, rfl⟩, rfl,
      rfl⟩
  | put tag =>
    rcases hb.call (show tag.Small from hsmall) with ⟨hrun, hlong⟩ |
      ⟨r, fdt', p', hrun, hb', ⟨hcode⟩⟩
    · -- the header, the reservations and the free bytes are shorter than the name
      have hcost := tag.nameSize_le_cost
      have hrsv₀ := hb.rsv
      have htotal : p.total = 40 + p.rsv.length + p.block.length + p.gap.length + p.strs.length :=
        rfl
      refine Or.inl ⟨hrun, ?_, tag, rfl, by omega, by rw [hb.length]; omega⟩
      rw [WriterCall.cost]
      omega
    · refine Or.inr ⟨r, fdt', hrun, Or.inr ⟨_, rfl, ?_⟩, ?_⟩
      · rcases hcode with ⟨rfl, hadded, hcost⟩ | ⟨rfl, hkept, hfull⟩
        · obtain ⟨bs, piece, hblock, hpiece, hlast⟩ := hadded.block
          obtain ⟨more, hstrs, hmore⟩ := hadded.strs
          refine Or.inl ⟨rfl, p'.gap.length, ⟨p', pieces ++ [piece], hb', hadded.rsv.trans hrsv,
            hblock ▸ hlaid.append (.single hpiece), Forall₂_snoc hstated ⟨more, hstrs⟩ hlast, ?_,
            rfl⟩, hcost⟩
          rw [hstrs, List.length_append, List.map_append, List.sum_append, List.map_singleton,
            List.sum_singleton]
          omega
        · refine Or.inr ⟨rfl, hfull, p', pieces, hb', ?_, ?_, ?_, ?_, hkept.free⟩
          · rw [hkept.same]
            exact hrsv
          · rw [hkept.same]
            exact hlaid
          · rw [hkept.same]
            exact hstated
          · rw [hkept.same]
            exact hnames
      · rw [hb'.addr, hb.addr, hb'.length, hb.length]
        rcases hcode with ⟨-, hadded, -⟩ | ⟨-, hkept, -⟩
        · exact ⟨hadded.addr, hadded.total⟩
        · refine ⟨by rw [hkept.same], ?_⟩
          rw [hkept.same]
          simp only [Parts.total, hkept.free]
  | finish =>
    rcases hb.finish hlaid hstated with ⟨hfull, hrun⟩ |
      ⟨fdt', pieces', block, left, hrun, hcomplete, hall, hfinal, haddr, hlen⟩
    · exact Or.inr ⟨_, fdt, hrun, Or.inr ⟨_, rfl, Or.inr ⟨rfl, hfull, p, pieces, hb, hrsv, hlaid,
        hstated, hnames, rfl⟩⟩, rfl, rfl⟩
    · exact Or.inr ⟨_, fdt', hrun, Or.inr ⟨_, rfl, Or.inl ⟨rfl, p.gap.length,
        ⟨block, p.strs, left, pieces', hrsv ▸ hcomplete, hall, hfinal⟩, Nat.le_add_right _ _⟩⟩,
        haddr, hlen⟩

theorem Shows.complete {es : List (Nat × Nat)} {tags : List FdtTag}
    (h : Shows fdt free (.complete es tags)) (c : WriterCall) :
    c.call fdt = .ok (-fdtErrBadstate, fdt) := by
  obtain ⟨block, strs, left, pieces, hcomplete, -, -⟩ := h
  have hprobe := hcomplete.probe
  have hmemrsv : fdtSwProbeMemrsv fdt = -fdtErrBadstate := by
    rw [fdtSwProbeMemrsv, hprobe]
    rfl
  cases c with
  | addReservemapEntry addr size => exact addReservemapEntry_refused hmemrsv addr size
  | finishReservemap => exact finishReservemap_refused hmemrsv
  | put tag => exact put_refused (fdtSwProbe_struct hprobe) tag
  | finish => exact fdtFinish_refused (fdtSwProbe_struct hprobe)

theorem Shows.call {stage : Stage} (h : Shows fdt free stage) {c : WriterCall} (hsmall : c.Small) :
    (c.call fdt = .error .wild ∧ free < c.cost ∧ ∃ es tags tag, stage = .building es tags ∧
      c = .put tag ∧ Overlong fdt.mem.length tags tag) ∨
    ∃ r fdt', c.call fdt = .ok (r, fdt') ∧ Outcome fdt free stage c r fdt' ∧
      fdt'.addr = fdt.addr ∧ fdt'.mem.length = fdt.mem.length := by
  cases stage with
  | reserving es => exact Or.inr (h.reserving c)
  | building es tags =>
    rcases h.building hsmall with ⟨hrun, hfull, tag, hc, hlong⟩ | hreturns
    · exact Or.inl ⟨hrun, hfull, es, tags, tag, rfl, hc, hlong⟩
    · exact Or.inr hreturns
  | complete es tags => exact Or.inr ⟨_, fdt, h.complete c, Or.inl ⟨rfl, rfl, rfl⟩, rfl, rfl⟩

end

/-- The calls one after the other, whatever they return: their codes. -/
def runCalls : List WriterCall → FdtBuf → Except FdtStop (List Int × FdtBuf)
  | [], fdt => .ok ([], fdt)
  | c :: cs, fdt => do
    let (r, fdt) ← c.call fdt
    let (rs, fdt) ← runCalls cs fdt
    return (r :: rs, fdt)

/-- The codes of calls, and the stage and the buffer that they lead to. A call that is refused
leaves the buffer as it is, one without room leaves the stage. -/
inductive Answers : Stage → FdtBuf → List WriterCall → List Int → Stage → FdtBuf → Prop
  | nil (stage : Stage) (fdt : FdtBuf) : Answers stage fdt [] [] stage fdt
  | refused {stage last : Stage} {fdt fdt' : FdtBuf} {c : WriterCall} {cs : List WriterCall}
      {rs : List Int} : stage.next c = none → c.call fdt = .ok (-fdtErrBadstate, fdt) →
        Answers stage fdt cs rs last fdt' →
        Answers stage fdt (c :: cs) (-fdtErrBadstate :: rs) last fdt'
  | full {stage stage' last : Stage} {fdt fdt₁ fdt' : FdtBuf} {c : WriterCall}
      {cs : List WriterCall} {rs : List Int} : stage.next c = some stage' →
        c.call fdt = .ok (-fdtErrNospace, fdt₁) → Answers stage fdt₁ cs rs last fdt' →
        Answers stage fdt (c :: cs) (-fdtErrNospace :: rs) last fdt'
  | done {stage stage' last : Stage} {fdt fdt₁ fdt' : FdtBuf} {c : WriterCall}
      {cs : List WriterCall} {rs : List Int} : stage.next c = some stage' →
        c.call fdt = .ok (0, fdt₁) → Answers stage' fdt₁ cs rs last fdt' →
        Answers stage fdt (c :: cs) (0 :: rs) last fdt'

/-- After some of the calls comes a property whose name is too long. -/
def Overruns (stage : Stage) (fdt : FdtBuf) (cs : List WriterCall) : Prop :=
  ∃ before rs es tags fdt₁ tag after, cs = before ++ .put tag :: after ∧
    Answers stage fdt before rs (.building es tags) fdt₁ ∧ tag.call fdt₁ = .error .wild ∧
    Overlong fdt.mem.length tags tag

section
variable {fdt fdt₁ : FdtBuf} {free : Nat} {stage stage₁ : Stage} {c : WriterCall}
  {cs : List WriterCall} {r : Int}

theorem Outcome.answers (h : Outcome fdt free stage c r fdt₁) (hshows : Shows fdt free stage)
    (hrun : c.call fdt = .ok (r, fdt₁)) :
    ∃ stage₁ free₁, Shows fdt₁ free₁ stage₁ ∧ free ≤ free₁ + c.cost ∧
      (-fdtErrNospace = r → free < c.cost) ∧
      ∀ cs rs last fdt', Answers stage₁ fdt₁ cs rs last fdt' →
        Answers stage fdt (c :: cs) (r :: rs) last fdt' := by
  rcases h with ⟨hnext, rfl, rfl⟩ | ⟨stage', hnext, ⟨rfl, free₁, hshows₁, hcost⟩ |
    ⟨rfl, hfull, hshows₁⟩⟩
  · exact ⟨stage, free, hshows, Nat.le_add_right _ _, fun hcode => absurd hcode (by decide),
      fun _ _ _ _ hrest => .refused hnext hrun hrest⟩
  · exact ⟨stage', free₁, hshows₁, hcost, fun hcode => absurd hcode (by decide),
      fun _ _ _ _ hrest => .done hnext hrun hrest⟩
  · exact ⟨stage, free, hshows₁, Nat.le_add_right _ _, fun _ => hfull,
      fun _ _ _ _ hrest => .full hnext hrun hrest⟩

theorem Overruns.cons (h : Overruns stage₁ fdt₁ cs) (hlen : fdt₁.mem.length = fdt.mem.length)
    (hstep : ∀ cs rs last fdt', Answers stage₁ fdt₁ cs rs last fdt' →
      Answers stage fdt (c :: cs) (r :: rs) last fdt') : Overruns stage fdt (c :: cs) := by
  obtain ⟨before, rs, es, tags, fdt₂, tag, after, rfl, hans, hwild, hlong⟩ := h
  exact ⟨c :: before, r :: rs, es, tags, fdt₂, tag, after, rfl, hstep _ _ _ _ hans, hwild,
    hlen ▸ hlong⟩

end

/-- The calls of a run return, unless they come to a name that is too long. -/
theorem runCalls_spec {stage : Stage} {cs : List WriterCall} (hsmall : ∀ c ∈ cs, c.Small)
    {fdt : FdtBuf} {free : Nat} (h : Shows fdt free stage) :
    (runCalls cs fdt = .error .wild ∧ Overruns stage fdt cs ∧
      free < (cs.map WriterCall.cost).sum) ∨
    ∃ rs fdt' last free', runCalls cs fdt = .ok (rs, fdt') ∧ Answers stage fdt cs rs last fdt' ∧
      Shows fdt' free' last ∧ fdt'.addr = fdt.addr ∧ fdt'.mem.length = fdt.mem.length ∧
      (-fdtErrNospace ∈ rs → free < (cs.map WriterCall.cost).sum) ∧
      free ≤ free' + (cs.map WriterCall.cost).sum := by
  induction cs generalizing stage fdt free with
  | nil =>
    exact Or.inr ⟨[], fdt, stage, free, rfl, .nil stage fdt, h, rfl, rfl,
      fun hin => absurd hin (by simp), Nat.le_add_right _ _⟩
  | cons c cs ih =>
    obtain ⟨hc, hcs⟩ := List.forall_mem_cons.mp hsmall
    simp only [List.map_cons, List.sum_cons]
    rcases h.call hc with ⟨hrun, hfull, es, tags, tag, rfl, rfl, hlong⟩ |
      ⟨r, fdt₁, hrun, hout, haddr, hlen⟩
    · refine Or.inl ⟨by simp only [runCalls, hrun, bind, Except.bind],
        ⟨[], [], es, tags, fdt, tag, cs, rfl, .nil _ fdt, hrun, hlong⟩, by omega⟩
    · obtain ⟨stage₁, free₁, hshows₁, hcost, hcode, hstep⟩ := hout.answers h hrun
      rcases ih hcs hshows₁ with ⟨hrest, hover, hfull⟩ |
        ⟨rs, fdt', last, free', hrest, hans, hlast, haddr', hlen', hspace, hfree⟩
      · exact Or.inl ⟨by simp only [runCalls, hrun, hrest, bind, Except.bind],
          hover.cons hlen hstep, by omega⟩
      · refine Or.inr ⟨_, fdt', last, free', by simp only [runCalls, hrun, hrest, bind, Except.bind,
          pure, Except.pure], hstep _ _ _ _ hans, hlast, haddr'.trans haddr, hlen'.trans hlen,
          fun hin => ?_, by omega⟩
        rcases List.mem_cons.mp hin with heq | hin
        · have hfull := hcode heq
          omega
        · have hsum := hspace hin
          omega

end Xenlib.Libfdt
