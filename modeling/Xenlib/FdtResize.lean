import Xenlib.FdtRoundTrip

/-!
A tree that is moved into another buffer while it is written.
-/

set_option autoImplicit false

namespace Xenlib.Libfdt

section
variable {fdt : FdtBuf} {hd : Header} {head gap tail : Bytes}

theorem Has.resize (h : Has fdt hd (head ++ (gap ++ tail))) (hprobe : fdtSwProbe fdt = 0)
    (hhead : hd.offDtStruct + hd.sizeDtStruct = 40 + head.length)
    (htail : hd.sizeDtStrings = tail.length) (htotal : hd.totalsize = fdt.mem.length)
    {buf : FdtBuf} (hmax : buf.mem.length < 2 ^ 31) :
    (buf.mem.length < 40 + head.length + tail.length ∧
      fdtResize buf fdt = .ok (-fdtErrNospace, buf)) ∨
    ∃ fdt' gap', 40 + head.length + gap'.length + tail.length = buf.mem.length ∧
      fdtResize buf fdt = .ok (0, fdt') ∧ fdt'.addr = buf.addr ∧
      Has fdt' { hd with
        totalsize := buf.mem.length
        offDtStrings := if hd.offDtStrings ≠ 0 then buf.mem.length else hd.offDtStrings }
        (head ++ (gap' ++ tail)) := by
  have hlen := h.length
  have hwords : (BigEndian.table 4 hd.words).length = 40 := BigEndian.table_length 4 _
  simp only [List.length_append] at hlen
  have hfrom : fdt.bytes 0 (40 + head.length) = .ok (BigEndian.table 4 hd.words ++ head) := by
    have hmem : fdt.mem = [] ++ ((BigEndian.table 4 hd.words ++ head) ++ (gap ++ tail)) := by
      rw [h.mem, List.nil_append, List.append_assoc]
    have hread := bytes_append hmem
    rwa [List.length_append, hwords] at hread
  have hend : fdt.bytes (fdt.mem.length - tail.length) tail.length = .ok tail := by
    have hhas : Has fdt hd ((head ++ gap) ++ (tail ++ [])) := by
      simpa only [List.append_assoc, List.append_nil] using h
    refine hhas.bytes ?_
    rw [List.length_append]
    omega
  simp only [fdtResize, hprobe, h.offDtStruct, h.sizeDtStruct, h.sizeDtStrings, h.totalsize, hhead,
    htail, htotal, hfrom, hend, bind, Except.bind, pure, Except.pure]
  rw [if_neg (not_not.mpr rfl), if_neg (by omega)]
  by_cases hfit : buf.mem.length < 40 + head.length + tail.length
  · rw [if_pos hfit]
    exact Or.inl ⟨hfit, rfl⟩
  · rw [if_neg hfit]
    -- the bytes that are overwritten at both ends of the new buffer
    obtain ⟨old, rest, hmem, hold⟩ :=
      split_gap (show 40 + head.length ≤ buf.mem.length by omega)
    have hsum := congrArg List.length hmem
    rw [List.length_append] at hsum
    obtain ⟨gap', old', rfl, hold'⟩ := split_end (show tail.length ≤ rest.length by omega)
    rw [List.length_append] at hsum
    have hsize : (BigEndian.table 4 hd.words ++ head).length = old.length := by
      rw [List.length_append, hwords, hold]
    have hfront : 0 + (BigEndian.table 4 hd.words ++ head).length ≤ buf.mem.length := by
      omega
    have hnew : Has ⟨buf.addr, Span.patch buf.mem 0 (BigEndian.table 4 hd.words ++ head),
        Span.patch_length hfront ▸ buf.header⟩ hd ((head ++ gap') ++ (old' ++ [])) := by
      refine ⟨?_, h.small⟩
      change Span.patch buf.mem 0 _ = _
      rw [hmem, ← List.nil_append (old ++ _),
        Span.patch_append (show 0 = ([] : Bytes).length from rfl) hsize.symm]
      simp only [List.nil_append, List.append_nil, List.append_assoc]
    have hstore : buf.store 0 (BigEndian.table 4 hd.words ++ head) = .ok _ := dif_pos hfront
    obtain ⟨fdt₁, hstore₁, hhas₁, haddr₁⟩ := hnew.store tail
      (show buf.mem.length - tail.length = 40 + (head ++ gap').length by
        rw [List.length_append]; omega) hold'
    simp only [List.append_nil, List.append_assoc] at hhas₁
    have hhas₂ : Has (fdt₁.setTotalsize buf.mem.length) { hd with totalsize := buf.mem.length }
        (head ++ (gap' ++ tail)) := hhas₁.set 1 (by omega) rfl
    simp only [hstore, hstore₁, hhas₂.offDtStrings]
    refine Or.inr ⟨_, gap', by omega, rfl, ?_, ?_⟩
    · split_ifs <;> exact haddr₁
    · split_ifs with hoff
      · have hhas₃ : Has ((fdt₁.setTotalsize buf.mem.length).setOffDtStrings buf.mem.length)
            { hd with totalsize := buf.mem.length, offDtStrings := buf.mem.length }
            (head ++ (gap' ++ tail)) := hhas₂.set 3 (by omega) rfl
        simpa only [htail] using hhas₃
      · simpa only [htail] using hhas₂

end

section
variable {fdt buf : FdtBuf} {free : Nat}

theorem Reserving.resize {flags : Nat} {rsv gap : Bytes} (h : Reserving fdt flags rsv gap)
    (hmax : buf.mem.length < 2 ^ 31) :
    (buf.mem.length + gap.length < fdt.mem.length ∧
      fdtResize buf fdt = .ok (-fdtErrNospace, buf)) ∨
    ∃ fdt' gap', fdt.mem.length + gap'.length = buf.mem.length + gap.length ∧
      fdtResize buf fdt = .ok (0, fdt') ∧ Reserving fdt' flags rsv gap' ∧
      fdt'.addr = buf.addr ∧ fdt'.mem.length = buf.mem.length := by
  have hprobe : fdtSwProbe fdt = 0 := by
    rw [fdtSwProbe, h.has.magic]
    rfl
  have hhas : Has fdt ⟨fdtSwMagic, fdt.mem.length, 40 + rsv.length, 0, flags, 0, 0⟩
      (rsv ++ (gap ++ [])) := by
    rw [List.append_nil]
    exact h.has
  have hlen := hhas.length
  simp only [List.length_append, List.length_nil] at hlen
  rcases hhas.resize hprobe (Nat.add_zero _) rfl rfl hmax with ⟨hfull, hrun⟩ |
    ⟨fdt', gap', hsum, hrun, haddr, hhas'⟩
  · simp only [List.length_nil] at hfull
    exact Or.inl ⟨by omega, hrun⟩
  · have hlen' := hhas'.length
    simp only [List.length_append, List.length_nil] at hlen' hsum
    have hsame : fdt'.mem.length = buf.mem.length := by omega
    refine Or.inr ⟨fdt', gap', by omega, hrun, ⟨?_, by omega⟩, haddr, hsame⟩
    rw [List.append_nil] at hhas'
    rw [hsame]
    exact hhas'

theorem Building.resize {p : Parts} (h : Building fdt p) (hmax : buf.mem.length < 2 ^ 31) :
    (buf.mem.length + p.gap.length < fdt.mem.length ∧
      fdtResize buf fdt = .ok (-fdtErrNospace, buf)) ∨
    ∃ fdt' gap', fdt.mem.length + gap'.length = buf.mem.length + p.gap.length ∧
      fdtResize buf fdt = .ok (0, fdt') ∧ Building fdt' { p with addr := buf.addr, gap := gap' } ∧
      fdt'.addr = buf.addr ∧ fdt'.mem.length = buf.mem.length := by
  have hprobe : fdtSwProbe fdt = 0 := by
    rw [fdtSwProbe, h.has.magic]
    rfl
  have hhas : Has fdt p.header ((p.rsv ++ p.block) ++ (p.gap ++ p.strs)) := by
    simpa only [Parts.rest, List.append_assoc] using h.has
  have hlen := h.length
  rcases hhas.resize hprobe (by simp only [Parts.header, List.length_append]; omega) rfl
    (by rw [hlen]; rfl) hmax with ⟨hfull, hrun⟩ | ⟨fdt', gap', hsum, hrun, haddr, hhas'⟩
  · rw [List.length_append] at hfull
    simp only [Parts.total] at hlen
    exact Or.inl ⟨by omega, hrun⟩
  · have hlen' := hhas'.length
    simp only [List.length_append] at hlen' hsum
    simp only [Parts.total] at hlen
    have htotal : Parts.total { p with addr := buf.addr, gap := gap' } = buf.mem.length := by
      simp only [Parts.total]
      omega
    have hheader : Parts.header { p with addr := buf.addr, gap := gap' } =
        { p.header with
          totalsize := buf.mem.length
          offDtStrings := if p.header.offDtStrings ≠ 0 then buf.mem.length
            else p.header.offDtStrings } := by
      have hne : p.header.offDtStrings ≠ 0 := by
        simp only [Parts.header, Parts.total]
        omega
      rw [if_pos hne]
      simp only [Parts.header, htotal]
    refine Or.inr ⟨fdt', gap', by omega, hrun, ⟨?_, haddr, h.rsv, by rw [htotal]; exact hmax⟩,
      haddr, by omega⟩
    rw [hheader]
    simpa only [Parts.rest, List.append_assoc] using hhas'

/-- A tree that is not complete goes into another buffer just when it fits, and the stage is the
same there. -/
theorem Shows.resize {stage : Stage} (h : Shows fdt free stage) (hmax : buf.mem.length < 2 ^ 31) :
    (∃ es tags, stage = .complete es tags ∧ fdtResize buf fdt = .ok (-fdtErrBadstate, buf)) ∨
    (buf.mem.length + free < fdt.mem.length ∧ fdtResize buf fdt = .ok (-fdtErrNospace, buf)) ∨
    ∃ fdt' free', fdt.mem.length + free' = buf.mem.length + free ∧
      fdtResize buf fdt = .ok (0, fdt') ∧ Shows fdt' free' stage ∧ fdt'.addr = buf.addr ∧
      fdt'.mem.length = buf.mem.length := by
  cases stage with
  | reserving es =>
    obtain ⟨flags, gap, hres, rfl⟩ := h
    rcases hres.resize hmax with hfull | ⟨fdt', gap', hsum, hrun, hres', haddr, hsame⟩
    · exact Or.inr (Or.inl hfull)
    · exact Or.inr (Or.inr ⟨fdt', gap'.length, hsum, hrun, ⟨flags, gap', hres', rfl⟩, haddr, hsame⟩)
  | building es tags =>
    obtain ⟨p, pieces, hb, hrsv, hlaid, hstated, hnames, rfl⟩ := h
    rcases hb.resize hmax with hfull | ⟨fdt', gap', hsum, hrun, hb', haddr, hsame⟩
    · exact Or.inr (Or.inl hfull)
    · exact Or.inr (Or.inr ⟨fdt', gap'.length, hsum, hrun,
        ⟨_, pieces, hb', hrsv, hlaid, hstated, hnames, rfl⟩, haddr, hsame⟩)
  | complete es tags =>
    obtain ⟨block, strs, left, pieces, hcomplete, -, -⟩ := h
    have hprobe := hcomplete.probe
    refine Or.inl ⟨es, tags, rfl, ?_⟩
    simp only [fdtResize, hprobe]
    rfl

end

/-- A property with a name that would be too long for the first buffer, and the end. -/
def restCalls : List WriterCall :=
  [.put (.property (List.replicate 100 slash) [1]), .put .endNode, .finish]

def secondBuffer : FdtBuf := ⟨8, List.replicate 256 0, by decide +kernel⟩

end Xenlib.Libfdt
