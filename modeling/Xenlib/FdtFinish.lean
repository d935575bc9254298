import Xenlib.FdtCalls
import Xenlib.FdtTree

/-!
`fdt_finish`: the strings are moved to the end of the structure block, and the names of the
properties get their offsets from the start of the strings.
-/

set_option autoImplicit false

namespace Xenlib.Libfdt

/-- The piece that stands for a tag when the tree is finished. -/
inductive Final (strs : Bytes) : Piece → FdtTag → Prop
  | beginNode (name : CString) : Final strs (.beginNode name) (.beginNode name)
  | property {nameoff : Nat} {name : CString} (value : Bytes) : nameoff < strs.length →
      strBytes name <+: strs.drop nameoff →
        Final strs (.prop nameoff value) (.property name value)
  | endNode : Final strs .endNode .endNode

section
variable {fdt : FdtBuf} {hd : Header} {rsv block tail : Bytes}

theorem Has.blockIn (h : Has fdt hd (rsv ++ (block ++ tail)))
    (hstruct : hd.offDtStruct = 40 + rsv.length) (hsize : hd.sizeDtStruct = block.length)
    (hfits : hd.offDtStruct + block.length ≤ hd.totalsize)
    (htotal : hd.totalsize ≤ fdt.mem.length) (hint : hd.totalsize < 2 ^ 31) :
    BlockIn fdt block := by
  have hoff := h.offDtStruct
  refine ⟨⟨?_, ?_, ?_⟩, ?_, fun _ => h.sizeDtStruct.trans hsize, ?_, ?_⟩
  · rw [h.totalsize]
    exact htotal
  · rw [h.totalsize, intMax]
    omega
  · rw [hoff, hstruct, fdtV1Size]
    omega
  · rw [h.version]
    decide
  · refine ⟨BigEndian.table 4 hd.words ++ rsv, tail, by rw [h.mem, List.append_assoc], ?_⟩
    rw [hoff, hstruct, List.length_append, BigEndian.table_length]
    rfl
  · rw [hoff, h.totalsize]
    exact hfits

theorem Named.correct {strs : Bytes} {nameoff : Nat} {name : CString} (h : Named strs nameoff name)
    (hmax : strs.length < 2 ^ 31) : ∃ k, k < strs.length ∧ strBytes name <+: strs.drop k ∧
      toUint (toInt (toInt nameoff + strs.length)) = k := by
  obtain ⟨d, hpos, hle, hd, rfl, hname⟩ := h
  refine ⟨strs.length - d, by omega, hname, ?_⟩
  have hneg : toInt ((2 ^ 32 - d : Nat) : Int) = -d := by
    simp only [toInt]
    omega
  have hsum : -(d : Int) + strs.length = ((strs.length - d : Nat) : Int) := by omega
  rw [hneg, hsum, toInt_natCast (by omega), toUint_natCast (by omega)]

theorem Has.rename {a bs c value : Bytes} {nameoff k q : Nat} (h : Has fdt hd (a ++ (bs ++ c)))
    (hlaid : Laid (.prop nameoff value) bs) (hk : k < 2 ^ 32) (hq : q = 40 + a.length + 8) :
    ∃ fdt' bs', fdt.store q (cpuToFdt32 k) = .ok fdt' ∧ Has fdt' hd (a ++ (bs' ++ c)) ∧
      Laid (.prop k value) bs' ∧ bs'.length = bs.length ∧ fdt'.addr = fdt.addr := by
  have hword : ∀ v, (cpuToFdt32 v).length = 4 := BigEndian.bytes_length 4
  obtain ⟨pad, rfl⟩ := hlaid.start
  have hlen := hlaid.length
  have h8 : (cpuToFdt32 fdtPropTag ++ cpuToFdt32 value.length).length = 8 := by
    rw [List.length_append, hword, hword]
  have hhas : Has fdt hd (a ++ ((cpuToFdt32 fdtPropTag ++ cpuToFdt32 value.length) ++
      (cpuToFdt32 nameoff ++ (value ++ (pad ++ c))))) := by
    simpa only [Piece.head, Piece.body, List.append_assoc] using h
  have hstart : q = 40 + a.length + (cpuToFdt32 fdtPropTag ++ cpuToFdt32 value.length).length := by
    rw [h8, hq]
  obtain ⟨fdt', hstore, hhas', haddr⟩ :=
    hhas.storeAfter (cpuToFdt32 k) hstart ((hword _).trans (hword _).symm)
  have hlength : ((Piece.prop k value).head ++ (Piece.prop k value).body ++ pad).length =
      ((Piece.prop nameoff value).head ++ (Piece.prop nameoff value).body ++ pad).length := by
    simp [Piece.head, Piece.body, cpuToFdt32]
  refine ⟨fdt', (Piece.prop k value).head ++ (Piece.prop k value).body ++ pad, hstore, ?_,
    ⟨⟨hk, hlaid.fits.2⟩, List.prefix_append _ _, ?_⟩, hlength, haddr⟩
  · simpa only [Piece.head, Piece.body, List.append_assoc] using hhas'
  · rw [hlength, hlen]
    simp [Piece.size, Piece.head, Piece.body, cpuToFdt32]

end

section
variable {fdt : FdtBuf} {rounds : Nat} {off next : Int}

theorem finishLoop_finish (htag : fdtNextTag fdt off = .ok (fdtEndTag, next)) :
    finishLoop (rounds + 1) off fdt = .ok (next, fdt) := by
  simp only [finishLoop, htag, bind, Except.bind, pure, Except.pure]
  exact if_pos trivial

theorem finishLoop_other {tag : Nat} (hend : tag ≠ fdtEndTag) (hprop : tag ≠ fdtPropTag)
    (htag : fdtNextTag fdt off = .ok (tag, next)) :
    finishLoop (rounds + 1) off fdt = finishLoop rounds next fdt := by
  simp only [finishLoop, htag, bind, Except.bind]
  rw [if_neg hend, if_neg hprop]

theorem finishLoop_prop (htag : fdtNextTag fdt off = .ok (fdtPropTag, next)) {nameoff : Nat}
    (hname : fdt.ld32 (fdt.offDtStruct + off.toNat + 8) = .ok nameoff) {fdt' : FdtBuf}
    (hstore : fdt.store (fdt.offDtStruct + off.toNat + 8) (cpuToFdt32 (toUint
      (toInt (toInt nameoff + fdt.sizeDtStrings)))) = .ok fdt') :
    finishLoop (rounds + 1) off fdt = finishLoop rounds next fdt' := by
  simp only [finishLoop, htag, hname, hstore, bind, Except.bind]
  rw [if_neg (by decide), if_pos trivial]

end

structure Closing (hd : Header) (rsv block strs left : Bytes) : Prop where
  offDtStruct : hd.offDtStruct = 40 + rsv.length
  sizeDtStruct : hd.sizeDtStruct = block.length
  sizeDtStrings : hd.sizeDtStrings = strs.length
  totalsize : hd.totalsize = 40 + rsv.length + block.length + strs.length + left.length
  int : hd.totalsize < 2 ^ 31

section
variable {hd : Header} {rsv strs left : Bytes}

theorem Closing.congr {block block' : Bytes} (h : Closing hd rsv block strs left)
    (hlen : block'.length = block.length) : Closing hd rsv block' strs left :=
  ⟨h.offDtStruct, h.sizeDtStruct.trans hlen.symm, h.sizeDtStrings, hlen ▸ h.totalsize, h.int⟩

theorem Closing.blockIn {fdt : FdtBuf} {block : Bytes} (h : Closing hd rsv block strs left)
    (hhas : Has fdt hd (rsv ++ (block ++ (strs ++ left)))) : BlockIn fdt block := by
  have htotal := h.totalsize
  refine hhas.blockIn h.offDtStruct h.sizeDtStruct ?_ ?_ h.int
  · rw [h.offDtStruct, htotal]
    omega
  · rw [hhas.length, htotal]
    simp only [List.length_append]
    omega

/-- The loop came to the end of the block: what was still to do has final names. -/
def Corrected (hd : Header) (rsv done todo strs left : Bytes) (tags : List FdtTag) (addr : Nat)
    (run : Except FdtStop (Int × FdtBuf)) : Prop :=
  ∃ (n : Nat) (fdt' : FdtBuf) (pieces : List Piece) (todo' : Bytes), run = .ok ((n : Int), fdt') ∧
    todo'.length = todo.length ∧ Has fdt' hd (rsv ++ ((done ++ todo') ++ (strs ++ left))) ∧
    LaidAll (pieces ++ [.finish]) todo' ∧ List.Forall₂ (Final strs) pieces tags ∧ fdt'.addr = addr

theorem Corrected.cons {done bs bs' rest : Bytes} {piece : Piece} {tag : FdtTag}
    {tags : List FdtTag} {addr : Nat} {run : Except FdtStop (Int × FdtBuf)}
    (hlen : bs'.length = bs.length) (hlaid : Laid piece bs') (hfinal : Final strs piece tag)
    (h : Corrected hd rsv (done ++ bs') rest strs left tags addr run) :
    Corrected hd rsv done (bs ++ rest) strs left (tag :: tags) addr run := by
  obtain ⟨n, fdt', pieces, todo', hrun, hlen', hhas, hall, hfinals, haddr⟩ := h
  refine ⟨n, fdt', piece :: pieces, bs' ++ todo', hrun, ?_, ?_, .cons hlaid hall,
    .cons hfinal hfinals, haddr⟩
  · rw [List.length_append, List.length_append, hlen, hlen']
  · simpa only [List.append_assoc] using hhas

/-- The loop comes to the end of the block. What is before its offset is done. -/
theorem finishLoop_spec {pieces : List Piece} {tags : List FdtTag} {todo : Bytes}
    (hstated : List.Forall₂ (Stated strs) pieces tags) (hlaid : LaidAll (pieces ++ [.finish]) todo)
    {fdt : FdtBuf} {done : Bytes} {rounds : Nat}
    (hclosing : Closing hd rsv (done ++ todo) strs left)
    (hhas : Has fdt hd (rsv ++ ((done ++ todo) ++ (strs ++ left))))
    (hmod : done.length % fdtTagsize = 0) (hrounds : pieces.length < rounds) :
    Corrected hd rsv done todo strs left tags fdt.addr (finishLoop rounds done.length fdt) := by
  induction hstated generalizing fdt done todo rounds with
  | nil =>
    obtain ⟨rounds, rfl⟩ : ∃ k, rounds = k + 1 := Nat.exists_eq_succ_of_ne_zero (by omega)
    cases hlaid with
    | @cons _ _ bs _ hend hnil =>
      have hp := (hclosing.blockIn hhas).pieceAt hend hmod
      exact ⟨_, fdt, [], _, finishLoop_finish hp.tag, rfl, hhas, .cons hend hnil, .nil, rfl⟩
  | @cons piece tag pieces tags hpiece _ ih =>
    obtain ⟨rounds, rfl⟩ : ∃ k, rounds = k + 1 := Nat.exists_eq_succ_of_ne_zero (by omega)
    simp only [List.length_cons] at hrounds
    cases hlaid with
    | @cons _ _ bs rest hbs hrest =>
      have hp := (hclosing.blockIn hhas).pieceAt hbs hmod
      have htag := hp.tag
      -- the rounds after this one
      have hafter : ∀ {fdt₁ : FdtBuf} {bs' : Bytes}, bs'.length = bs.length →
          Has fdt₁ hd (rsv ++ ((done ++ (bs' ++ rest)) ++ (strs ++ left))) →
          Corrected hd rsv (done ++ bs') rest strs left tags fdt₁.addr
            (finishLoop rounds (done.length + bs.length : Nat) fdt₁) := by
        intro fdt₁ bs' hlen hhas₁
        have hdone : (done ++ bs').length = done.length + bs.length := by
          rw [List.length_append, hlen]
        have hmod₁ : (done ++ bs').length % fdtTagsize = 0 := by
          have hbsmod := hbs.mod
          rw [hdone]
          simp only [fdtTagsize] at hmod hbsmod ⊢
          omega
        rw [← List.append_assoc done] at hhas₁
        rw [← hdone]
        exact ih hrest (hclosing.congr (by simp only [List.length_append]; omega)) hhas₁ hmod₁
          (by omega)
      cases hpiece with
      | beginNode name =>
        refine .cons rfl hbs (.beginNode name) ?_
        rw [finishLoop_other (show fdtBeginNodeTag ≠ fdtEndTag by decide) (by decide) htag]
        exact hafter rfl hhas
      | endNode =>
        refine .cons rfl hbs .endNode ?_
        rw [finishLoop_other (show fdtEndNodeTag ≠ fdtEndTag by decide) (by decide) htag]
        exact hafter rfl hhas
      | @property nameoff name value hnamed =>
        have hstrs : strs.length < 2 ^ 31 := by
          have hint := hclosing.int
          have htotal := hclosing.totalsize
          omega
        obtain ⟨k, hk, hname, hcorrect⟩ := hnamed.correct hstrs
        have hstart : fdt.offDtStruct + done.length + 8 = 40 + (rsv ++ done).length + 8 := by
          rw [hhas.offDtStruct, hclosing.offDtStruct, List.length_append]
          omega
        have hhas₀ : Has fdt hd ((rsv ++ done) ++ (bs ++ (rest ++ (strs ++ left)))) := by
          simpa only [List.append_assoc] using hhas
        obtain ⟨fdt₁, bs', hstore, hhas₁, hbs', hlen, haddr⟩ :=
          hhas₀.rename hbs (show k < 2 ^ 32 by omega) hstart
        refine .cons hlen hbs' (.property value hk hname) ?_
        rw [← hcorrect, ← hclosing.sizeDtStrings, ← hhas.sizeDtStrings] at hstore
        rw [finishLoop_prop htag hp.holds.2.2.1 hstore, ← haddr]
        exact hafter hlen (by simpa only [List.append_assoc] using hhas₁)

end

def finalHeader (rsv block strs : Bytes) : Header where
  magic := fdtMagicValue
  totalsize := 40 + rsv.length + block.length + strs.length
  offDtStruct := 40 + rsv.length
  offDtStrings := 40 + rsv.length + block.length
  lastCompVersion := fdtLastCompatibleVersion
  sizeDtStrings := strs.length
  sizeDtStruct := block.length

/-- A finished tree with these parts. -/
structure Complete (fdt : FdtBuf) (rsv block strs left : Bytes) : Prop where
  has : Has fdt (finalHeader rsv block strs) (rsv ++ (block ++ (strs ++ left)))
  terminated : 24 ≤ rsv.length
  int : 40 + rsv.length + block.length + strs.length + left.length < 2 ^ 31

theorem LaidAll.length_le {pieces : List Piece} {bs : Bytes} (h : LaidAll pieces bs) :
    pieces.length ≤ bs.length := by
  induction h with
  | nil => exact Nat.le_refl 0
  | @cons piece pieces bs rest hlaid _ ih =>
    have hlen := hlaid.length
    have hhead := piece.head_length
    rw [Piece.size] at hlen
    rw [List.length_cons, List.length_append]
    omega

section
variable {fdt : FdtBuf} {p : Parts}

theorem Building.strings (h : Building fdt p) :
    ∃ q, fdt.fromEnd fdt.sizeDtStrings = .ok q ∧ fdt.bytes q fdt.sizeDtStrings = .ok p.strs := by
  have hhas : Has fdt p.header ((p.rsv ++ (p.block ++ p.gap)) ++ (p.strs ++ [])) := by
    simpa only [Parts.rest, List.append_assoc, List.append_nil] using h.has
  have hstrs : fdt.sizeDtStrings = p.strs.length := h.has.sizeDtStrings
  rw [hstrs]
  refine ⟨_, h.fromEnd (by simp only [Parts.total]; omega), hhas.bytes ?_⟩
  simp only [Parts.total, List.length_append]
  omega

theorem Building.relocate (h : Building fdt p) {pieces : List Piece} {tags : List FdtTag}
    (hlaid : LaidAll (pieces ++ [.finish]) p.block)
    (hstated : List.Forall₂ (Stated p.strs) pieces tags) :
    ∃ fdt' pieces' block left, relocateStrings fdt = .ok (0, fdt') ∧
      Complete fdt' p.rsv block p.strs left ∧ LaidAll (pieces' ++ [.finish]) block ∧
      List.Forall₂ (Final p.strs) pieces' tags ∧ fdt'.addr = fdt.addr ∧
      fdt'.mem.length = fdt.mem.length := by
  have hint := h.int
  simp only [Parts.total] at hint
  have hsize : fdt.sizeDtStruct = p.block.length := h.has.sizeDtStruct
  have hoff : fdt.offDtStruct = 40 + p.rsv.length := h.has.offDtStruct
  have hnew : fdt.offDtStruct + fdt.sizeDtStruct = 40 + p.rsv.length + p.block.length := by
    rw [hoff, hsize]
  obtain ⟨q, hend, hbytes⟩ := h.strings
  -- the strings come to the front of the free bytes
  obtain ⟨b, left, hsplit, hb⟩ := split_gap (show p.strs.length ≤ (p.gap ++ p.strs).length by simp)
  have hsum := congrArg List.length hsplit
  rw [List.length_append, List.length_append, hb] at hsum
  have hhas : Has fdt p.header ((p.rsv ++ p.block) ++ (b ++ left)) := by
    simpa only [Parts.rest, hsplit, List.append_assoc] using h.has
  obtain ⟨fdt₁, hstore, hhas₁, haddr₁⟩ := hhas.store p.strs
    (show 40 + p.rsv.length + p.block.length = 40 + (p.rsv ++ p.block).length by
      rw [List.length_append, Nat.add_assoc]) hb
  rw [List.append_assoc] at hhas₁
  have hhas₂ : Has (fdt₁.setOffDtStrings (40 + p.rsv.length + p.block.length))
      { p.header with offDtStrings := 40 + p.rsv.length + p.block.length }
      (p.rsv ++ (([] ++ p.block) ++ (p.strs ++ left))) := hhas₁.set 3 (by omega) rfl
  have hclosing : Closing { p.header with offDtStrings := 40 + p.rsv.length + p.block.length }
      p.rsv ([] ++ p.block) p.strs left := by
    refine ⟨rfl, rfl, rfl, ?_, h.int⟩
    simp only [Parts.header, Parts.total, List.nil_append]
    omega
  have hrounds : pieces.length <
      (fdt₁.setOffDtStrings (40 + p.rsv.length + p.block.length)).mem.length + 1 := by
    have hle := hlaid.length_le
    rw [hhas₂.length]
    simp only [List.length_append, List.length_singleton] at hle ⊢
    omega
  obtain ⟨n, fdt₂, pieces', block, hloop, hlen, hhas₃, hall, hfinal, haddr₂⟩ :=
    finishLoop_spec hstated hlaid hclosing hhas₂ rfl hrounds
  have hstrs : fdt₂.sizeDtStrings = p.strs.length := hhas₃.sizeDtStrings
  refine ⟨(((fdt₂.setTotalsize (40 + p.rsv.length + p.block.length + p.strs.length))
    |>.setLastCompVersion fdtLastCompatibleVersion).setMagic fdtMagicValue),
    pieces', block, left, ?_, ?_⟩
  · change finishLoop _ 0 _ = _ at hloop
    simp only [relocateStrings, hnew, hend, hbytes, hstore, hloop, hstrs, bind, Except.bind, pure,
      Except.pure]
    exact if_neg (Int.not_lt.mpr (Int.natCast_nonneg n))
  · rw [List.nil_append] at hhas₃
    have htotal : Has (fdt₂.setTotalsize (40 + p.rsv.length + p.block.length + p.strs.length))
        { p.header with
          totalsize := 40 + p.rsv.length + p.block.length + p.strs.length
          offDtStrings := 40 + p.rsv.length + p.block.length } _ := hhas₃.set 1 (by omega) rfl
    have hcomp : Has (FdtBuf.setLastCompVersion _ fdtLastCompatibleVersion)
        { p.header with
          totalsize := 40 + p.rsv.length + p.block.length + p.strs.length
          offDtStrings := 40 + p.rsv.length + p.block.length
          lastCompVersion := fdtLastCompatibleVersion } _ := htotal.set 6 (by decide) rfl
    have hmagic := hcomp.set 0 (show fdtMagicValue < 2 ^ 32 by decide)
      (show (finalHeader p.rsv p.block p.strs).words = _ from rfl)
    rw [show finalHeader p.rsv p.block p.strs = finalHeader p.rsv block p.strs by
      simp only [finalHeader, hlen]] at hmagic
    refine ⟨⟨hmagic, h.rsv, by omega⟩, hall, hfinal, haddr₂.trans haddr₁, ?_⟩
    rw [FdtBuf.setMagic, hmagic.length, h.length]
    simp only [Parts.total, List.length_append]
    omega

theorem Building.finish (h : Building fdt p) {pieces : List Piece} {tags : List FdtTag}
    (hlaid : LaidAll pieces p.block) (hstated : List.Forall₂ (Stated p.strs) pieces tags) :
    (p.gap.length < 4 ∧ fdtFinish fdt = .ok (-fdtErrNospace, fdt)) ∨
    ∃ fdt' pieces' block left, fdtFinish fdt = .ok (0, fdt') ∧
      Complete fdt' p.rsv block p.strs left ∧ LaidAll (pieces' ++ [.finish]) block ∧
      List.Forall₂ (Final p.strs) pieces' tags ∧ fdt'.addr = fdt.addr ∧
      fdt'.mem.length = fdt.mem.length := by
  simp only [fdtFinish, h.probe, h.grab (show fdtTagsize < 2 ^ 32 by decide), bind, Except.bind,
    pure, Except.pure]
  rw [if_neg (not_not.mpr rfl)]
  by_cases hfit : fdtTagsize ≤ p.gap.length
  · obtain ⟨g, gap, hgap, hg, hhas⟩ := h.grabbed hfit
    obtain ⟨fdt₁, hstore, hhas₁, haddr₁⟩ := hhas.store (cpuToFdt32 fdtEndTag) rfl
      (by rw [hg, cpuToFdt32, BigEndian.bytes_length]; rfl)
    have hsum := congrArg List.length hgap
    rw [List.length_append, hg] at hsum
    rw [← List.nil_append (gap ++ p.strs)] at hhas₁
    obtain ⟨hend, hb⟩ := h.stored .finish trivial hsum.symm rfl hhas₁ haddr₁
    obtain ⟨fdt', pieces', block, left, hrun, hcomplete, hall, hfinal, haddr, hlen⟩ :=
      hb.relocate (hlaid.append (.single hend)) hstated
    have htotal : Parts.total { p with
        block := p.block ++ (Piece.finish.head ++ (Piece.finish.body ++ [])),
        gap := gap } = p.total :=
      Parts.total_grown (by rw [hend.length, hsum]; rfl)
    refine Or.inr ⟨fdt', pieces', block, left, ?_, hcomplete, hall, hfinal, haddr.trans haddr₁,
      hlen.trans (hb.length.trans (htotal.trans h.length.symm))⟩
    rw [if_pos hfit]
    simp only [hstore]
    exact hrun
  · rw [if_neg hfit]
    exact Or.inl ⟨Nat.lt_of_not_le hfit, rfl⟩

end

section
variable {fdt : FdtBuf} {rsv block strs left : Bytes}

theorem Complete.blockIn (h : Complete fdt rsv block strs left) : BlockIn fdt block := by
  have hint := h.int
  refine h.has.blockIn rfl rfl ?_ ?_ ?_
  · simp only [finalHeader]
    omega
  · rw [h.has.length]
    simp only [finalHeader, List.length_append]
    omega
  · simp only [finalHeader]
    omega

theorem Complete.readable (h : Complete fdt rsv block strs left) (haddr : fdt.addr % 8 = 0)
    (hmax : 40 + rsv.length + block.length + strs.length < intMax) : Readable fdt := by
  have hheader : roProbeHeader fdt = 0 := by
    rw [roProbeHeader, if_neg (by omega), h.has.magic, h.has.version, h.has.lastCompVersion]
    rfl
  refine ⟨h.blockIn.framed, ?_, ?_⟩
  · rw [fdtRoProbe, if_neg (not_not.mpr hheader), h.has.totalsize,
      if_pos (show (finalHeader rsv block strs).totalsize < intMax from hmax)]
    exact Int.natCast_nonneg _
  · rw [h.has.version]
    decide

theorem Complete.getString (h : Complete fdt rsv block strs left) (hread : Readable fdt)
    {nameoff : Nat} {name : CString} (hlt : nameoff < strs.length)
    (hname : strBytes name <+: strs.drop nameoff) :
    fdtGetString fdt (toInt nameoff) = .ok (.ok name) := by
  have hint := h.int
  have hprobe : fdtRoProbe fdt = (40 + rsv.length + block.length + strs.length : Nat) := by
    have hpos := hread.probe
    rcases fdtRoProbe_size fdt with hneg | htotal
    · omega
    · rw [htotal, h.has.totalsize]
      rfl
  have habs : toUint ((nameoff : Int) + (40 + rsv.length + block.length : Nat)) =
      40 + rsv.length + block.length + nameoff := by
    simp only [toUint]
    omega
  have hspan : stringSpan fdt nameoff =
      .ok (40 + rsv.length + block.length + nameoff, strs.length - nameoff) := by
    simp only [stringSpan, hprobe, h.has.magic, h.has.version, h.has.offDtStrings,
      h.has.sizeDtStrings, finalHeader, habs, toUint_natCast (show nameoff < 2 ^ 32 by omega),
      Int.toNat_natCast]
    rw [if_neg (by omega), if_neg (by omega), if_pos trivial, if_neg (by omega), if_neg (by decide),
      if_neg (by omega)]
    exact congrArg Except.ok (Prod.ext rfl (by dsimp only; omega))
  obtain ⟨more, hmore⟩ := hname
  have hmem : fdt.mem = (BigEndian.table 4 (finalHeader rsv block strs).words
      ++ (rsv ++ (block ++ strs.take nameoff))) ++ (strs.drop nameoff ++ left) := by
    rw [h.has.mem, List.append_assoc, List.append_assoc, List.append_assoc,
      ← List.append_assoc (strs.take nameoff), List.take_append_drop]
  have hslice : Span.slice fdt.mem (40 + rsv.length + block.length + nameoff)
      (strs.length - nameoff) = strBytes name ++ more := by
    rw [hmem, hmore]
    refine Span.slice_append ?_ (List.length_drop).symm
    rw [List.length_append, BigEndian.table_length, List.length_append, List.length_append,
      List.length_take_of_le (by omega)]
    change _ = 40 + _
    omega
  rw [toInt_natCast (by omega), fdtGetString, hspan]
  simp only [FdtBuf.memchrNul, hslice, readStr_strBytes, bind, Except.bind]
  rfl

theorem Complete.walk (h : Complete fdt rsv block strs left) (hread : Readable fdt)
    {pieces : List Piece} {tags : List FdtTag} (hfinal : List.Forall₂ (Final strs) pieces tags)
    {done todo : Bytes} (hblock : block = done ++ todo) (hlaid : LaidAll (pieces ++ [.finish]) todo)
    (hmod : done.length % fdtTagsize = 0) : Walk fdt done.length tags := by
  induction hfinal generalizing done todo with
  | nil =>
    cases hlaid with
    | cons hend _ => exact .finish ((hblock ▸ h.blockIn).pieceAt hend hmod)
  | @cons piece tag pieces tags hpiece _ ih =>
    cases hlaid with
    | @cons _ _ bs rest hbs hrest =>
      have hp := (hblock ▸ h.blockIn).pieceAt hbs hmod
      have hafter : Walk fdt (done.length + bs.length) tags := by
        rw [← List.length_append]
        refine ih (by rw [hblock, List.append_assoc]) hrest ?_
        have hbsmod := hbs.mod
        rw [List.length_append]
        simp only [fdtTagsize] at hmod hbsmod ⊢
        omega
      refine .tag hp ?_ hafter
      cases hpiece with
      | beginNode name => exact .beginNode name
      | endNode => exact .endNode
      | property value hlt hname => exact .property value (h.getString hread hlt hname)

end

end Xenlib.Libfdt
