import Xenlib.FdtWrite
import Xenlib.FdtLayout

/-!
The buffer of the sequential writer in parts: the header, the reservations, the structure block
that grows, the free bytes, and the strings.
-/

set_option autoImplicit false

namespace Xenlib.Libfdt

/-- The fields that the writer gives different values. -/
structure Header where
  magic : Nat
  totalsize : Nat
  offDtStruct : Nat
  offDtStrings : Nat
  lastCompVersion : Nat
  sizeDtStrings : Nat
  sizeDtStruct : Nat

def Header.words (hd : Header) : List Nat :=
  [hd.magic, hd.totalsize, hd.offDtStruct, hd.offDtStrings, createHdrsize, fdtLastSupportedVersion,
    hd.lastCompVersion, 0, hd.sizeDtStrings, hd.sizeDtStruct]

structure Has (fdt : FdtBuf) (hd : Header) (rest : Bytes) : Prop where
  mem : fdt.mem = BigEndian.table 4 hd.words ++ rest
  small : ∀ w ∈ hd.words, w < 2 ^ 32

section
variable {fdt : FdtBuf} {hd : Header} {rest : Bytes}

theorem Has.field (h : Has fdt hd rest) {i : Nat} (hi : i < hd.words.length) :
    be32At fdt.mem (4 * i) = hd.words[i] := by
  rw [be32At_eq, h.mem, BigEndian.slice_table hi, BigEndian.value_bytes]
  exact Nat.mod_eq_of_lt (h.small _ (List.getElem_mem hi))

theorem Has.magic (h : Has fdt hd rest) : fdt.magic = hd.magic :=
  h.field (show 0 < 10 by decide)

theorem Has.totalsize (h : Has fdt hd rest) : fdt.totalsize = hd.totalsize :=
  h.field (show 1 < 10 by decide)

theorem Has.offDtStruct (h : Has fdt hd rest) : fdt.offDtStruct = hd.offDtStruct :=
  h.field (show 2 < 10 by decide)

theorem Has.offDtStrings (h : Has fdt hd rest) : fdt.offDtStrings = hd.offDtStrings :=
  h.field (show 3 < 10 by decide)

theorem Has.offMemRsvmap (h : Has fdt hd rest) : fdt.offMemRsvmap = createHdrsize :=
  h.field (show 4 < 10 by decide)

theorem Has.version (h : Has fdt hd rest) : fdt.version = fdtLastSupportedVersion :=
  h.field (show 5 < 10 by decide)

theorem Has.lastCompVersion (h : Has fdt hd rest) : fdt.lastCompVersion = hd.lastCompVersion :=
  h.field (show 6 < 10 by decide)

theorem Has.sizeDtStrings (h : Has fdt hd rest) : fdt.sizeDtStrings = hd.sizeDtStrings :=
  h.field (show 8 < 10 by decide)

theorem Has.sizeDtStruct (h : Has fdt hd rest) : fdt.sizeDtStruct = hd.sizeDtStruct :=
  h.field (show 9 < 10 by decide)

theorem Has.length (h : Has fdt hd rest) : fdt.mem.length = 40 + rest.length := by
  rw [h.mem, List.length_append, BigEndian.table_length]
  rfl

theorem Has.set (h : Has fdt hd rest) (i : Fin 10) {v : Nat} (hv : v < 2 ^ 32) {hd' : Header}
    (hwords : hd'.words = hd.words.set i v) : Has (fdt.setField i v) hd' rest := by
  refine ⟨?_, fun w hw => ?_⟩
  · change Span.patch fdt.mem (4 * i) (cpuToFdt32 v) = _
    rw [hwords, h.mem]
    exact BigEndian.patch_table i.isLt v
  · rw [hwords] at hw
    rcases List.mem_or_eq_of_mem_set hw with hold | rfl
    · exact h.small w hold
    · exact hv

theorem Has.store {a b c : Bytes} (h : Has fdt hd (a ++ (b ++ c))) (data : Bytes) {p : Nat}
    (hp : p = 40 + a.length) (hlen : b.length = data.length) :
    ∃ fdt', fdt.store p data = .ok fdt' ∧
      Has fdt' hd (a ++ (data ++ c)) ∧ fdt'.addr = fdt.addr := by
  have hstart : p = (BigEndian.table 4 hd.words ++ a).length := by
    rw [List.length_append, BigEndian.table_length, hp]
    rfl
  have hfit : p + data.length ≤ fdt.mem.length := by
    rw [h.length]
    simp only [List.length_append]
    omega
  refine ⟨_, dif_pos hfit, ⟨?_, h.small⟩, rfl⟩
  have hmem : fdt.mem = (BigEndian.table 4 hd.words ++ a) ++ (b ++ c) := by
    rw [h.mem, List.append_assoc]
  change Span.patch fdt.mem p data = _
  rw [hmem, Span.patch_append hstart hlen, List.append_assoc]

theorem Has.storeAfter {a d b c : Bytes} (h : Has fdt hd (a ++ (d ++ (b ++ c)))) (data : Bytes)
    {p : Nat} (hp : p = 40 + a.length + d.length) (hlen : b.length = data.length) :
    ∃ fdt', fdt.store p data = .ok fdt' ∧ Has fdt' hd (a ++ (d ++ (data ++ c))) ∧
      fdt'.addr = fdt.addr := by
  rw [← List.append_assoc] at h
  have hstart : p = 40 + (a ++ d).length := by
    rw [hp, List.length_append, Nat.add_assoc]
  obtain ⟨fdt', hstore, hhas, haddr⟩ := h.store data hstart hlen
  rw [List.append_assoc] at hhas
  exact ⟨fdt', hstore, hhas, haddr⟩

theorem Has.bytes {a b c : Bytes} (h : Has fdt hd (a ++ (b ++ c))) {p : Nat}
    (hp : p = 40 + a.length) : fdt.bytes p b.length = .ok b := by
  have hstart : p = (BigEndian.table 4 hd.words ++ a).length := by
    rw [List.length_append, BigEndian.table_length, hp]
    rfl
  have hmem : fdt.mem = (BigEndian.table 4 hd.words ++ a) ++ (b ++ c) := by
    rw [h.mem, List.append_assoc]
  rw [hstart]
  exact bytes_append hmem

end

/-- What is between the header and the end of the buffer. -/
structure Parts where
  addr : Nat
  flags : Nat
  rsv : Bytes
  block : Bytes
  gap : Bytes
  strs : Bytes

namespace Parts
variable (p : Parts)

def total : Nat :=
  40 + p.rsv.length + p.block.length + p.gap.length + p.strs.length

def header : Header where
  magic := fdtSwMagic
  totalsize := p.total
  offDtStruct := 40 + p.rsv.length
  offDtStrings := p.total
  lastCompVersion := p.flags
  sizeDtStrings := p.strs.length
  sizeDtStruct := p.block.length

def rest : Bytes := p.rsv ++ (p.block ++ (p.gap ++ p.strs))

theorem total_grown {p : Parts} {bs gap : Bytes} (h : bs.length + gap.length = p.gap.length) :
    total { p with block := p.block ++ bs, gap := gap } = p.total := by
  simp only [total, List.length_append]
  omega

theorem total_moved {p : Parts} {gap strs : Bytes}
    (h : gap.length + strs.length = p.gap.length + p.strs.length) :
    total { p with gap := gap, strs := strs } = p.total := by
  simp only [total]
  omega

end Parts

/-- The writer is in its struct state, and the parts are these. At least the terminator is
reserved. -/
structure Building (fdt : FdtBuf) (p : Parts) : Prop where
  has : Has fdt p.header p.rest
  addr : fdt.addr = p.addr
  rsv : 24 ≤ p.rsv.length
  int : p.total < 2 ^ 31

section
variable {fdt : FdtBuf} {p : Parts}

theorem Building.length (h : Building fdt p) : fdt.mem.length = p.total := by
  rw [h.has.length]
  simp only [Parts.rest, Parts.total, List.length_append]
  omega

theorem Building.probe (h : Building fdt p) : fdtSwProbeStruct fdt = 0 := by
  have hsw : fdtSwProbe fdt = 0 := by
    rw [fdtSwProbe, h.has.magic]
    rfl
  rw [fdtSwProbeStruct, hsw, h.has.offDtStrings, h.has.totalsize]
  exact (if_neg (not_not.mpr rfl)).trans (if_neg (not_not.mpr rfl))

theorem Building.grab (h : Building fdt p) {len : Nat} (hlen : len < 2 ^ 32) :
    fdtGrabSpace fdt len = if len ≤ p.gap.length then
      some (40 + (p.rsv ++ p.block).length, fdt.setSizeDtStruct (p.block.length + len))
    else none := by
  have hint := h.int
  have hleft : toUint (fdt.totalsize - fdt.offDtStruct - fdt.sizeDtStrings) =
      p.block.length + p.gap.length := by
    rw [h.has.totalsize, h.has.offDtStruct, h.has.sizeDtStrings]
    simp only [Parts.header, Parts.total, toUint] at hint ⊢
    omega
  have hsize : fdt.sizeDtStruct = p.block.length := h.has.sizeDtStruct
  have hoff : fdt.offDtStruct = 40 + p.rsv.length := h.has.offDtStruct
  simp only [Parts.total] at hint
  have hsum : (p.block.length + len) % 2 ^ 64 = p.block.length + len := Nat.mod_eq_of_lt (by omega)
  simp only [fdtGrabSpace, hleft]
  simp only [hsize, hoff, hsum, List.length_append, Nat.add_assoc]
  by_cases hfit : len ≤ p.gap.length
  · rw [if_pos hfit, if_neg (by omega)]
  · rw [if_neg hfit, if_pos (by omega)]

theorem Building.grown (h : Building fdt p) {fdt' : FdtBuf} {bs gap : Bytes}
    (hlen : bs.length + gap.length = p.gap.length)
    (hhas : Has fdt' { p.header with sizeDtStruct := p.block.length + bs.length }
      (p.rsv ++ (p.block ++ (bs ++ (gap ++ p.strs))))) (haddr : fdt'.addr = fdt.addr) :
    Building fdt' { p with block := p.block ++ bs, gap := gap } := by
  have htotal := Parts.total_grown hlen
  refine ⟨?_, haddr.trans h.addr, h.rsv, htotal ▸ h.int⟩
  have hheader : Parts.header { p with block := p.block ++ bs, gap := gap } =
      { p.header with sizeDtStruct := p.block.length + bs.length } := by
    simp only [Parts.header, htotal, List.length_append]
  rw [hheader]
  simpa only [Parts.rest, List.append_assoc] using hhas

theorem split_gap {gap : Bytes} {n : Nat} (h : n ≤ gap.length) :
    ∃ g gap', gap = g ++ gap' ∧ g.length = n :=
  ⟨gap.take n, gap.drop n, (List.take_append_drop n gap).symm, List.length_take_of_le h⟩

/-- A negative offset of a name, from the end of the strings. -/
def Named (strs : Bytes) (nameoff : Nat) (name : CString) : Prop :=
  ∃ d, 0 < d ∧ d ≤ strs.length ∧ d < 2 ^ 31 ∧ nameoff = 2 ^ 32 - d ∧
    strBytes name <+: strs.drop (strs.length - d)

theorem Named.grow {strs : Bytes} {nameoff : Nat} {name : CString} (h : Named strs nameoff name)
    (more : Bytes) : Named (more ++ strs) nameoff name := by
  obtain ⟨d, hpos, hle, hmax, hoff, hname⟩ := h
  refine ⟨d, hpos, by rw [List.length_append]; omega, hmax, hoff, ?_⟩
  have hdrop : (more ++ strs).drop ((more ++ strs).length - d) = strs.drop (strs.length - d) := by
    rw [List.length_append, Nat.add_sub_assoc hle, List.drop_length_add_append]
  rwa [hdrop]

theorem fdtFindString_spec {s : CString} {strtab : Bytes} {k : Nat}
    (h : fdtFindString s strtab = some k) :
    k < strtab.length ∧ strBytes s <+: strtab.drop k := by
  induction strtab generalizing k with
  | nil => cases h
  | cons b strtab ih =>
    rw [fdtFindString] at h
    split_ifs at h with hshort heq
    · obtain rfl := Option.some.inj h
      refine ⟨by simp, ?_⟩
      rw [List.drop_zero, ← heq]
      exact List.take_prefix _ _
    · obtain ⟨j, hj, rfl⟩ := Option.map_eq_some_iff.mp h
      obtain ⟨hlt, hname⟩ := ih hj
      exact ⟨by rw [List.length_cons]; omega, hname⟩

theorem toUint_neg {d : Nat} (hpos : 0 < d) (h : d < 2 ^ 31) : toUint (-d) = 2 ^ 32 - d := by
  simp only [toUint]
  omega

theorem toInt_neg {d : Nat} (h : d < 2 ^ 31) : toInt (-d) = -d := by
  simp only [toInt]
  omega

theorem Building.found (h : Building fdt p) {s : CString} {k : Nat}
    (hk : fdtFindString s p.strs = some k) : (k : Int) - p.strs.length ≠ 0 ∧
      Named p.strs (toUint ((k : Int) - p.strs.length)) s := by
  obtain ⟨hlt, hname⟩ := fdtFindString_spec hk
  have hint := h.int
  simp only [Parts.total] at hint
  have hneg : (k : Int) - p.strs.length = -((p.strs.length - k : Nat) : Int) := by omega
  refine ⟨by omega, p.strs.length - k, by omega, by omega, by omega, ?_, ?_⟩
  · rw [hneg, toUint_neg (by omega) (by omega)]
  · rwa [show p.strs.length - (p.strs.length - k) = k by omega]

theorem Building.fromEnd (h : Building fdt p) {n : Nat} (hn : n ≤ p.total) :
    fdt.fromEnd n = .ok (p.total - n) := by
  rw [FdtBuf.fromEnd, h.has.totalsize]
  exact if_pos hn

theorem Building.moved (h : Building fdt p) {fdt' : FdtBuf} {gap strs : Bytes}
    (hlen : gap.length + strs.length = p.gap.length + p.strs.length)
    (hhas : Has fdt' { p.header with sizeDtStrings := strs.length }
      (p.rsv ++ (p.block ++ (gap ++ strs)))) (haddr : fdt'.addr = fdt.addr) :
    Building fdt' { p with gap := gap, strs := strs } := by
  have htotal := Parts.total_moved hlen
  refine ⟨?_, haddr.trans h.addr, h.rsv, htotal ▸ h.int⟩
  have hheader : Parts.header { p with gap := gap, strs := strs } =
      { p.header with sizeDtStrings := strs.length } := by
    simp only [Parts.header, htotal]
  rw [hheader]
  exact hhas

theorem split_end {gap : Bytes} {n : Nat} (h : n ≤ gap.length) :
    ∃ gap' g, gap = gap' ++ g ∧ g.length = n :=
  ⟨gap.take (gap.length - n), gap.drop (gap.length - n),
    (List.take_append_drop (gap.length - n) gap).symm, by rw [List.length_drop]; omega⟩

theorem Building.addString_eq (h : Building fdt p) {s : CString} (hs : s.length + 1 < 2 ^ 31) :
    fdtAddString s fdt =
      if toUint (p.total - (p.strs.length + (s.length + 1) : Nat)) <
          40 + p.rsv.length + p.block.length then .ok (0, fdt)
      else do
        let fdt ← fdt.store (← fdt.fromEnd (p.strs.length + (s.length + 1))) (strBytes s)
        return (toInt (-((p.strs.length + (s.length + 1) : Nat) : Int)),
          fdt.setSizeDtStrings (p.strs.length + (s.length + 1))) := by
  have hint := h.int
  simp only [Parts.total] at hint
  have hstrs : fdt.sizeDtStrings = p.strs.length := h.has.sizeDtStrings
  have hstruct : fdt.sizeDtStruct = p.block.length := h.has.sizeDtStruct
  have hoff : fdt.offDtStruct = 40 + p.rsv.length := h.has.offDtStruct
  have htotal : fdt.totalsize = p.total := h.has.totalsize
  have hlen : toUint (s.length + 1) = s.length + 1 := by
    simp only [toUint]
    omega
  have hoffset :
      toUint (p.strs.length + (s.length + 1 : Nat)) = p.strs.length + (s.length + 1) := by
    simp only [toUint]
    omega
  have htop : toUint ((40 + p.rsv.length : Nat) + p.block.length) =
      40 + p.rsv.length + p.block.length := by
    simp only [toUint]
    omega
  simp only [fdtAddString, hstrs, hstruct, hoff, htotal, hlen, hoffset, htop]
  rfl

/-- A string for which the whole of the buffer would be too small is written before it: the
calculation of the space wraps. -/
theorem Building.addString_wild (h : Building fdt p) {s : CString} (hs : s.length + 1 < 2 ^ 31)
    (hwrap : p.total < p.strs.length + (s.length + 1)) : fdtAddString s fdt = .error .wild := by
  have hint := h.int
  have hend : fdt.fromEnd (p.strs.length + (s.length + 1)) = .error .wild := by
    rw [FdtBuf.fromEnd, h.has.totalsize]
    exact if_neg (by simp only [Parts.header]; omega)
  have hleft : 2 ^ 31 ≤ toUint (p.total - (p.strs.length + (s.length + 1) : Nat)) := by
    simp only [toUint]
    simp only [Parts.total] at hint hwrap ⊢
    omega
  rw [h.addString_eq hs, if_neg (by simp only [Parts.total] at hint; omega), hend]
  rfl

/-- A string for which the whole of the buffer would not be too small is added where the free bytes
are enough. -/
theorem Building.addString (h : Building fdt p) {s : CString}
    (hs : p.strs.length + (s.length + 1) ≤ p.total) :
    (p.gap.length < s.length + 1 ∧ fdtAddString s fdt = .ok (0, fdt)) ∨
    ∃ fdt' gap, gap.length + (s.length + 1) = p.gap.length ∧
      fdtAddString s fdt = .ok (-((p.strs.length + (s.length + 1) : Nat) : Int), fdt') ∧
      Building fdt' { p with gap := gap, strs := strBytes s ++ p.strs } := by
  have hint := h.int
  have hleft : toUint (p.total - (p.strs.length + (s.length + 1) : Nat)) =
      p.total - (p.strs.length + (s.length + 1)) := by
    simp only [toUint]
    omega
  rw [h.addString_eq (by omega), hleft]
  simp only [Parts.total] at hint hs
  by_cases hfit : p.gap.length < s.length + 1
  · refine Or.inl ⟨hfit, ?_⟩
    rw [if_pos (by simp only [Parts.total]; omega)]
  · obtain ⟨gap, g, hgap, hg⟩ := split_end (n := s.length + 1) (Nat.not_lt.mp hfit)
    have hsum := congrArg List.length hgap
    rw [List.length_append] at hsum
    have hhas : Has fdt p.header ((p.rsv ++ (p.block ++ gap)) ++ (g ++ p.strs)) := by
      simpa only [Parts.rest, hgap, List.append_assoc] using h.has
    obtain ⟨fdt₁, hstore, hhas₁, haddr⟩ :=
      hhas.store (strBytes s) rfl (by rw [hg, strBytes_length])
    refine Or.inr ⟨fdt₁.setSizeDtStrings (p.strs.length + (s.length + 1)), gap, by omega, ?_, ?_⟩
    · have hend : fdt.fromEnd (p.strs.length + (s.length + 1)) =
          .ok (40 + (p.rsv ++ (p.block ++ gap)).length) := by
        rw [h.fromEnd (by simp only [Parts.total]; omega)]
        simp only [Parts.total, List.length_append]
        exact congrArg Except.ok (by omega)
      rw [if_neg (by simp only [Parts.total]; omega)]
      simp only [hend, hstore, bind, Except.bind, pure, Except.pure]
      rw [toInt_neg (by omega)]
    · refine h.moved (by rw [List.length_append, strBytes_length]; omega) ?_ haddr
      have hlength : (strBytes s ++ p.strs).length = p.strs.length + (s.length + 1) := by
        rw [List.length_append, strBytes_length, Nat.add_comm]
      simp only [List.append_assoc] at hhas₁
      rw [hlength]
      exact hhas₁.set 8 (by omega) rfl

theorem Building.delLastString (h : Building fdt p) {s : CString} {strs : Bytes}
    (hstrs : p.strs = strBytes s ++ strs) : Building (fdtDelLastString s fdt)
      { p with gap := p.gap ++ strBytes s, strs := strs } := by
  have hint := h.int
  have hlen : p.strs.length = s.length + 1 + strs.length := by
    rw [hstrs, List.length_append, strBytes_length]
  simp only [Parts.total] at hint
  have hsize : toUint (fdt.sizeDtStrings - (s.length + 1)) = strs.length := by
    rw [h.has.sizeDtStrings]
    simp only [Parts.header, toUint]
    omega
  have hhas := h.has
  rw [Parts.rest, hstrs] at hhas
  refine h.moved (by rw [List.length_append, strBytes_length]; omega) ?_ rfl
  rw [fdtDelLastString, hsize, List.append_assoc]
  exact hhas.set 8 (by omega) rfl

theorem named_added {s : CString} {strs : Bytes} (h : strs.length + (s.length + 1) < 2 ^ 31) :
    Named (strBytes s ++ strs) (toUint (-((strs.length + (s.length + 1) : Nat) : Int))) s := by
  have hlen : (strBytes s ++ strs).length = strs.length + (s.length + 1) := by
    rw [List.length_append, strBytes_length, Nat.add_comm]
  refine ⟨strs.length + (s.length + 1), by omega, by omega, h, toUint_neg (by omega) h, ?_⟩
  rw [hlen, Nat.sub_self, List.drop_zero]
  exact List.prefix_append _ _

def Parts.finds (p : Parts) (s : CString) : Bool :=
  p.flags &&& fdtCreateFlagNoNameDedup = 0 ∧ (fdtFindString s p.strs).isSome

theorem Building.strtab (h : Building fdt p) :
    fdt.bytes (p.total - p.strs.length) p.strs.length = .ok p.strs := by
  have hhas : Has fdt p.header ((p.rsv ++ (p.block ++ p.gap)) ++ (p.strs ++ [])) := by
    simpa only [Parts.rest, List.append_assoc, List.append_nil] using h.has
  refine hhas.bytes ?_
  simp only [Parts.total, List.length_append]
  omega

theorem Building.findAddString (h : Building fdt p) (s : CString) :
    fdtFindAddString s fdt = (fdtFindString s p.strs).elim
      ((fdtAddString s fdt).bind fun r => .ok (r.1, true, r.2))
      fun k => .ok ((k : Int) - p.strs.length, false, fdt) := by
  have hstrs : fdt.sizeDtStrings = p.strs.length := h.has.sizeDtStrings
  rw [fdtFindAddString, hstrs, h.fromEnd (by simp only [Parts.total]; omega)]
  simp only [h.strtab, bind, Except.bind]
  cases fdtFindString s p.strs with
  | some k => rfl
  | none => rfl

theorem Building.property_found (h : Building fdt p) {s : CString} (hs : p.finds s = true) :
    ∃ nameoff, nameoff ≠ 0 ∧ Named p.strs (toUint nameoff) s ∧
      propertyName s fdt = .ok (nameoff, false, fdt) := by
  simp only [Parts.finds, decide_eq_true_eq] at hs
  obtain ⟨k, hk⟩ := Option.isSome_iff_exists.mp hs.2
  have hflags : swFlags fdt = p.flags := h.has.lastCompVersion
  obtain ⟨hne, hnamed⟩ := h.found hk
  refine ⟨_, hne, hnamed, ?_⟩
  rw [propertyName, hflags, if_neg (not_not.mpr hs.1), h.findAddString, hk]
  rfl

theorem Building.property_missing (h : Building fdt p) {s : CString} (hs : p.finds s = false) :
    propertyName s fdt = (fdtAddString s fdt).bind fun r => .ok (r.1, true, r.2) := by
  have hflags : swFlags fdt = p.flags := h.has.lastCompVersion
  rw [propertyName, hflags]
  by_cases hflag : p.flags &&& fdtCreateFlagNoNameDedup = 0
  · have hnone : fdtFindString s p.strs = none := by
      by_contra hsome
      have hfinds : p.finds s = true := by
        simp only [Parts.finds, hflag, decide_eq_true_eq]
        exact ⟨trivial, Option.isSome_iff_ne_none.mpr hsome⟩
      rw [hs] at hfinds
      cases hfinds
    rw [if_neg (not_not.mpr hflag), h.findAddString, hnone]
    rfl
  · rw [if_pos hflag]
    rfl

theorem Building.property_added (h : Building fdt p) {s : CString} (hs : p.finds s = false)
    (htotal : p.strs.length + (s.length + 1) ≤ p.total) :
    (p.gap.length < s.length + 1 ∧ propertyName s fdt = .ok (0, true, fdt)) ∨
    ∃ nameoff fdt' gap, nameoff ≠ 0 ∧ gap.length + (s.length + 1) = p.gap.length ∧
      Named (strBytes s ++ p.strs) (toUint nameoff) s ∧
      propertyName s fdt = .ok (nameoff, true, fdt') ∧
      Building fdt' { p with gap := gap, strs := strBytes s ++ p.strs } := by
  have hint := h.int
  rw [h.property_missing hs]
  rcases h.addString htotal with ⟨hfull, hrun⟩ | ⟨fdt', gap, hgap, hrun, hb⟩
  · exact Or.inl ⟨hfull, by rw [hrun]; rfl⟩
  · exact Or.inr ⟨_, fdt', gap, by omega, hgap, named_added (by omega), by rw [hrun]; rfl, hb⟩

end

end Xenlib.Libfdt
