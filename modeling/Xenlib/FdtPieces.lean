import Xenlib.FdtRead

/-!
What `fdt_next_tag` finds in a buffer whose header has passed its check, whatever the rest of it
holds, and the walk from one node to the next.
-/

set_option autoImplicit false

namespace Xenlib.Libfdt

theorem bind_ok {α β : Type} {x : Except FdtStop α} {f : α → Except FdtStop β} {b : β}
    (h : x >>= f = .ok b) : ∃ a, x = .ok a ∧ f a = .ok b := by
  cases x with
  | error stop => cases h
  | ok a => exact ⟨a, rfl, h⟩

theorem be32At_eq (mem : Bytes) (p : Nat) : be32At mem p = BigEndian.value (Span.slice mem p 4) :=
  rfl

theorem be32At_lt (mem : Bytes) (p : Nat) : be32At mem p < 2 ^ 32 := by
  have hlt := BigEndian.value_lt (Span.slice mem p 4)
  have hlen : (Span.slice mem p 4).length ≤ 4 := List.length_take_le _ _
  rw [be32At_eq]
  calc BigEndian.value (Span.slice mem p 4) < 256 ^ (Span.slice mem p 4).length := hlt
    _ ≤ 256 ^ 4 := Nat.pow_le_pow_right (by decide) hlen
    _ = 2 ^ 32 := by decide

theorem toUint_natCast {n : Nat} (h : n < 2 ^ 32) : toUint n = n := by
  simp only [toUint]
  omega

theorem toInt_natCast {n : Nat} (h : n < 2 ^ 31) : toInt n = n := by
  simp only [toInt]
  omega

theorem fdtTagalign_bounds (n : Nat) : n ≤ fdtTagalign n ∧ fdtTagalign n < n + 4 := by
  simp only [fdtTagalign]
  omega

theorem fdtTagalign_mod (n : Nat) : fdtTagalign n % fdtTagsize = 0 := by
  simp only [fdtTagalign, fdtTagsize]
  omega

/-- What the check of the header and the size of the buffer say about the reads. -/
structure Framed (fdt : FdtBuf) : Prop where
  size : fdt.totalsize ≤ fdt.mem.length
  int : fdt.totalsize ≤ intMax
  block : fdtV1Size ≤ fdt.offDtStruct

theorem fdtHeaderSize_ge (version : Nat) : fdtV1Size ≤ fdtHeaderSize version := by
  simp only [fdtHeaderSize, fdtV1Size, fdtV2Size, fdtV3Size, fdtV17Size]
  split_ifs <;> omega

/-- The conditions of `fdt_check_header`. -/
structure Checked (fdt : FdtBuf) : Prop where
  aligned : fdt.addr % 8 = 0
  magic : fdt.magic = fdtMagicValue
  supported : fdtFirstSupportedVersion ≤ fdt.version
  comp : fdt.lastCompVersion ≤ fdtLastSupportedVersion
  version : fdt.lastCompVersion ≤ fdt.version
  size : fdtHeaderSize fdt.version ≤ fdt.totalsize
  int : fdt.totalsize ≤ intMax
  rsvmap : checkOff (fdtHeaderSize fdt.version) fdt.totalsize fdt.offMemRsvmap = true
  block : checkStruct (fdtHeaderSize fdt.version) fdt = true
  strings : checkBlock (fdtHeaderSize fdt.version) fdt.totalsize fdt.offDtStrings
    fdt.sizeDtStrings = true

theorem fdtCheckHeader_iff (fdt : FdtBuf) : fdtCheckHeader fdt = 0 ↔ Checked fdt := by
  constructor
  · intro h
    simp only [fdtCheckHeader] at h
    split_ifs at h with h1 h2 h3 h4 h5 h6 h7 h8 <;> try exact absurd h (by decide)
    exact ⟨by omega, not_not.mp h2, by omega, by omega, by omega, by omega, by omega,
      h6, h7, h8⟩
  · intro ⟨h1, h2, h3, h4, h5, h6, h7, h8, h9, h10⟩
    simp only [fdtCheckHeader]
    rw [if_neg (by omega), if_neg (not_not.mpr h2), if_neg (by omega), if_neg (by omega),
      if_neg (by omega), if_neg (not_not.mpr h8), if_neg (not_not.mpr h9),
      if_neg (not_not.mpr h10)]

theorem Checked.framed {fdt : FdtBuf} (h : Checked fdt) (hsize : fdt.totalsize ≤ fdt.mem.length) :
    Framed fdt := by
  refine ⟨hsize, h.int, Nat.le_trans (fdtHeaderSize_ge fdt.version) ?_⟩
  have hblock := h.block
  unfold checkStruct at hblock
  split_ifs at hblock <;> simp [checkBlock, checkOff] at hblock <;> omega

section
variable {fdt : FdtBuf}

/-- A pointer is given when the bytes are inside the tree and inside the structure block. -/
theorem fdtOffsetPtr_iff {off len p : Nat} (hoff : off < 2 ^ 31) (hlen : len < 2 ^ 32) :
    fdtOffsetPtr fdt off len = some p ↔
      p = fdt.offDtStruct + off ∧ p + len ≤ fdt.totalsize ∧
        (0x11 ≤ fdt.version → off + len ≤ fdt.sizeDtStruct) := by
  have hstruct := be32At_lt fdt.mem 8
  have htotal := be32At_lt fdt.mem 4
  have hsize := be32At_lt fdt.mem 36
  change fdt.offDtStruct < _ at hstruct
  change fdt.totalsize < _ at htotal
  change fdt.sizeDtStruct < _ at hsize
  have hoff0 : ¬ (off : Int) < 0 := by omega
  simp only [fdtOffsetPtr, hoff0, if_false, Option.ite_none_left_eq_some, Option.some.injEq,
    Int.toNat_natCast]
  simp only [toUint]
  constructor
  · rintro ⟨hinside, hblock, rfl⟩
    exact ⟨rfl, by omega, by omega⟩
  · rintro ⟨rfl, hle, hblock⟩
    exact ⟨by omega, by omega, rfl⟩

theorem fdtOffsetPtr_neg {off : Int} (h : off < 0) (len : Nat) :
    fdtOffsetPtr fdt off len = none := by
  simp [fdtOffsetPtr, h]

theorem ld32_ok {p : Nat} (h : p + 4 ≤ fdt.mem.length) : fdt.ld32 p = .ok (be32At fdt.mem p) :=
  if_pos h

theorem bytes_ok {p len : Nat} (h : p + len ≤ fdt.mem.length) :
    fdt.bytes p len = .ok (Span.slice fdt.mem p len) := if_pos h

theorem byte_ok {p : Nat} (h : p < fdt.mem.length) : fdt.byte p = .ok fdt.mem[p] := by
  simp [FdtBuf.byte, h]

theorem str_cons {p : Nat} (hp : p < fdt.mem.length) (hb : fdt.mem[p] ≠ 0) {s : CString}
    (h : fdt.str (p + 1) = .ok s) : fdt.str p = .ok (⟨fdt.mem[p], hb⟩ :: s) := by
  simp only [FdtBuf.str, List.drop_eq_getElem_cons hp, readStr, dif_neg hb] at h ⊢
  cases hr : readStr (fdt.mem.drop (p + 1)) with
  | error e => simp [hr] at h
  | ok t =>
    simp only [hr, Except.ok.injEq] at h
    rw [h]

theorem str_nil {p : Nat} (hp : p < fdt.mem.length) (hb : fdt.mem[p] = 0) :
    fdt.str p = .ok [] := by
  simp [FdtBuf.str, List.drop_eq_getElem_cons hp, readStr, hb]

inductive Piece where
  | beginNode (name : CString)
  | prop (nameoff : Nat) (value : Bytes)
  | endNode
  | nop
  | finish

def Piece.tag : Piece → Nat
  | .beginNode _ => fdtBeginNodeTag
  | .prop _ _ => fdtPropTag
  | .endNode => fdtEndNodeTag
  | .nop => fdtNopTag
  | .finish => fdtEndTag

def FdtBuf.Holds (fdt : FdtBuf) (p : Nat) : Piece → Prop
  | .beginNode name => fdt.str (p + 4) = .ok name
  | .prop nameoff value => value.length < 2 ^ 31 ∧ fdt.ld32 (p + 4) = .ok value.length ∧
      fdt.ld32 (p + 8) = .ok nameoff ∧ fdt.bytes (p + 12) value.length = .ok value
  | _ => True

/-- `fdt_next_tag` finds the piece and the offset after it. -/
structure PieceAt (fdt : FdtBuf) (off : Nat) (piece : Piece) (next : Nat) : Prop where
  tag : fdtNextTag fdt off = .ok (piece.tag, next)
  holds : fdt.Holds (fdt.offDtStruct + off) piece
  lt : off + 4 ≤ next
  aligned : next % fdtTagsize = 0
  bound : fdt.offDtStruct + next < fdt.totalsize + 4

theorem skipName_spec (h : Framed fdt) {rounds off : Nat} (hpos : 0 < rounds)
    (hrounds : fdt.totalsize < fdt.offDtStruct + off + rounds) (hoff : off < 2 ^ 31) :
    ∃ r, skipName fdt rounds off = .ok r ∧ ∀ off', r = some off' →
      ∃ name, fdt.str (fdt.offDtStruct + off) = .ok name ∧
        off' = (off + name.length + 1 : Nat) ∧
        fdt.offDtStruct + off + name.length + 1 ≤ fdt.totalsize := by
  induction rounds generalizing off with
  | zero => omega
  | succ rounds ih =>
    cases hptr : fdtOffsetPtr fdt off 1 with
    | none => exact ⟨none, by simp [skipName, hptr], fun off' h' => by cases h'⟩
    | some p =>
      obtain ⟨rfl, hle, -⟩ := (fdtOffsetPtr_iff hoff (by decide)).mp hptr
      have hlt : fdt.offDtStruct + off < fdt.mem.length := Nat.lt_of_lt_of_le hle h.size
      by_cases hb : fdt.mem[fdt.offDtStruct + off] = 0
      · refine ⟨some ((off : Int) + 1),
          by simp [skipName, hptr, byte_ok hlt, hb, bind, Except.bind, pure, Except.pure], ?_⟩
        intro off' h'
        exact ⟨[], str_nil hlt hb, by simpa using (Option.some.inj h').symm, by simpa using hle⟩
      · have hint := h.int
        simp only [intMax] at hint
        obtain ⟨r, hr, hname⟩ := @ih (off + 1) (by omega) (by omega) (by omega)
        refine ⟨r, ?_, fun off' h' => ?_⟩
        · rw [skipName, hptr]
          simp only [byte_ok hlt, bind, Except.bind, if_neg hb]
          exact_mod_cast hr
        · obtain ⟨name, hstr, hoff', hbound⟩ := hname off' h'
          refine ⟨_, str_cons hlt hb hstr, ?_, ?_⟩
          · rw [hoff', List.length_cons]
            omega
          · rw [List.length_cons]
            omega

theorem toInt_add (n m : Int) : toInt (toInt n + m) = toInt (n + m) := by
  simp only [toInt]
  omega

theorem skipProp_spec (h : Framed fdt) {off : Nat} (hoff : off < 2 ^ 31) :
    ∃ r, skipProp fdt off = .ok r ∧ ∀ off', r = some off' →
      ∃ len extra, fdt.ld32 (fdt.offDtStruct + off) = .ok len ∧ len < 2 ^ 31 ∧ extra ≤ 4 ∧
        (0x10 ≤ fdt.version → extra = 0) ∧ off' = toInt (off + (8 + len + extra) : Nat) := by
  cases hptr : fdtOffsetPtr fdt off fdtTagsize with
  | none => exact ⟨none, by simp [skipProp, hptr], fun off' h' => by cases h'⟩
  | some p =>
    obtain ⟨rfl, hle, -⟩ := (fdtOffsetPtr_iff hoff (by decide)).mp hptr
    have hld := ld32_ok (Nat.le_trans hle h.size)
    generalize be32At fdt.mem (fdt.offDtStruct + off) = len at hld
    simp only [skipProp, hptr, hld, bind, Except.bind, pure, Except.pure]
    split_ifs with hsum hextra
    · exact ⟨none, rfl, fun off' h' => by cases h'⟩
    all_goals
      have hlen : len < 2 ^ 31 := by
        have hlt : len < 2 ^ 32 := by
          have heq := (ld32_ok (Nat.le_trans hle h.size)).symm.trans hld
          exact Except.ok.inj heq ▸ be32At_lt _ _
        simp only [toUint, intMax] at hsum
        omega
    · refine ⟨_, rfl, fun off' h' => ⟨len, 4, rfl, hlen, Nat.le_refl 4, fun hv => by omega, ?_⟩⟩
      rw [← Option.some.inj h', toInt_add]
      exact congrArg toInt (by omega)
    · refine ⟨_, rfl, fun off' h' => ⟨len, 0, rfl, hlen, Nat.zero_le 4, fun _ => rfl, ?_⟩⟩
      rw [← Option.some.inj h']
      exact congrArg toInt (by omega)

/-- The last check of `fdt_next_tag` leaves no room for an offset that has wrapped. -/
theorem tag_end (h : Framed fdt) {off size p : Nat} (hoff : off < 2 ^ 31) (hsize : size < 2 ^ 32)
    (hptr : fdtOffsetPtr fdt off (toUint (toInt (off + size : Nat) - off)) = some p) :
    fdt.offDtStruct + off + size ≤ fdt.totalsize ∧
      toInt (fdtTagalign (toUint (toInt (off + size : Nat)))) = fdtTagalign (off + size) := by
  have hlen : toUint (toInt (off + size : Nat) - off) = size := by
    simp only [toUint, toInt]
    omega
  rw [hlen] at hptr
  obtain ⟨rfl, hle, -⟩ := (fdtOffsetPtr_iff hoff hsize).mp hptr
  have hint := h.int
  have hblock := h.block
  simp only [intMax, fdtV1Size] at hint hblock
  refine ⟨hle, ?_⟩
  have hfit : toUint (toInt (off + size : Nat)) = off + size := by
    simp only [toUint, toInt]
    omega
  have halign := fdtTagalign_bounds (off + size)
  rw [hfit, toInt_natCast (by omega)]

theorem closePiece_spec (h : Framed fdt) (tag : Nat) {off size : Nat} (hoff : off < 2 ^ 31)
    (hsize : size < 2 ^ 32) :
    closePiece fdt off tag (some (toInt (off + size : Nat))) = (fdtEndTag, -fdtErrBadstructure) ∨
      closePiece fdt off tag (some (toInt (off + size : Nat))) =
          (tag, (fdtTagalign (off + size) : Int)) ∧
        fdt.offDtStruct + off + size ≤ fdt.totalsize := by
  cases hptr : fdtOffsetPtr fdt off (toUint (toInt (off + size : Nat) - off)) with
  | none => exact Or.inl (by rw [closePiece, hptr])
  | some p =>
    obtain ⟨hle, hnext⟩ := tag_end h hoff hsize hptr
    exact Or.inr ⟨by rw [closePiece, hptr, hnext], hle⟩

/-- At any offset there is a piece, or an error that ends the walk. -/
theorem fdtNextTag_spec (h : Framed fdt) {off : Nat} (hoff : off < 2 ^ 31) :
    (∃ piece next, PieceAt fdt off piece next) ∨
      ∃ err, fdtNextTag fdt off = .ok (fdtEndTag, -err) ∧
        (err = fdtErrTruncated ∨ err = fdtErrBadstructure) := by
  cases hptr : fdtOffsetPtr fdt off fdtTagsize with
  | none => exact Or.inr ⟨_, by simp [fdtNextTag, hptr], Or.inl rfl⟩
  | some p =>
    obtain ⟨rfl, hle, -⟩ := (fdtOffsetPtr_iff hoff (by decide)).mp hptr
    have hint := h.int
    have hblock := h.block
    have hsz := h.size
    simp only [intMax, fdtV1Size, fdtTagsize] at hint hblock hle
    have hld := ld32_ok (Nat.le_trans hle hsz)
    generalize be32At fdt.mem (fdt.offDtStruct + off) = tag at hld
    have hnext : ∀ r, skipPiece fdt tag ((off : Int) + 4) = .ok r →
        fdtNextTag fdt off = .ok (closePiece fdt off tag r) := fun r hr => by
      simp only [fdtNextTag, hptr, hld, hr, bind, Except.bind, pure, Except.pure]
    -- what is found, from the size of the piece
    have hfound : ∀ (piece : Piece) (size : Nat), tag = piece.tag → 4 ≤ size → size < 2 ^ 32 →
        (fdt.offDtStruct + off + size ≤ fdt.totalsize →
          fdt.Holds (fdt.offDtStruct + off) piece) →
        skipPiece fdt tag ((off : Int) + 4) = .ok (some (toInt (off + size : Nat))) →
        (∃ piece next, PieceAt fdt off piece next) ∨
          ∃ err, fdtNextTag fdt off = .ok (fdtEndTag, -err) ∧
            (err = fdtErrTruncated ∨ err = fdtErrBadstructure) := by
      intro piece size htag hmin hmax hholds hskip
      rcases closePiece_spec h tag hoff hmax with hbad | ⟨hgood, hfit⟩
      · exact Or.inr ⟨_, (hnext _ hskip).trans (congrArg _ hbad), Or.inr rfl⟩
      · have halign := fdtTagalign_bounds (off + size)
        refine Or.inl ⟨piece, fdtTagalign (off + size), ?_, hholds hfit, by omega,
          fdtTagalign_mod _, by omega⟩
        rw [hnext _ hskip, hgood, htag]
    have hbad : skipPiece fdt tag ((off : Int) + 4) = .ok none →
        ∃ err, fdtNextTag fdt off = .ok (fdtEndTag, -err) ∧
          (err = fdtErrTruncated ∨ err = fdtErrBadstructure) :=
      fun hskip => ⟨_, hnext _ hskip, Or.inr rfl⟩
    by_cases hbegin : tag = fdtBeginNodeTag
    · obtain ⟨r, hr, hname⟩ := skipName_spec h (Nat.succ_pos fdt.mem.length) (by omega)
        (show off + 4 < 2 ^ 31 by omega)
      have hskip : skipPiece fdt tag ((off : Int) + 4) = .ok r := by
        simp only [skipPiece, if_pos hbegin]
        exact_mod_cast hr
      cases r with
      | none => exact Or.inr (hbad hskip)
      | some off' =>
        obtain ⟨name, hstr, rfl, hbound⟩ := hname off' rfl
        refine hfound (.beginNode name) (4 + name.length + 1) hbegin (by omega) (by omega)
          (fun _ => hstr) ?_
        rw [hskip, toInt_natCast (by omega), Except.ok.injEq, Option.some.injEq]
        omega
    · by_cases hprop : tag = fdtPropTag
      · obtain ⟨r, hr, hlen⟩ := skipProp_spec h (show off + 4 < 2 ^ 31 by omega)
        have hskip : skipPiece fdt tag ((off : Int) + 4) = .ok r := by
          simp only [skipPiece, if_neg hbegin, if_pos hprop]
          exact_mod_cast hr
        cases r with
        | none => exact Or.inr (hbad hskip)
        | some off' =>
          obtain ⟨len, extra, hlen, hmax, hextra, -, hoff'⟩ := hlen off' rfl
          refine hfound (.prop (be32At fdt.mem (fdt.offDtStruct + off + 8))
            (Span.slice fdt.mem (fdt.offDtStruct + off + 12) len)) (12 + len + extra) hprop
            (by omega) (by omega) (fun hfit => ?_) ?_
          · have hslice : (Span.slice fdt.mem (fdt.offDtStruct + off + 12) len).length = len :=
              Span.slice_length (by omega)
            refine ⟨?_, ?_, ld32_ok (by omega), ?_⟩
            · rw [hslice]
              exact hmax
            · rw [hslice]
              exact hlen
            · rw [hslice]
              exact bytes_ok (by omega)
          · rw [hskip, hoff', show off + 4 + (8 + len + extra) = off + (12 + len + extra) by omega]
      · by_cases hother : tag = fdtEndTag ∨ tag = fdtEndNodeTag ∨ tag = fdtNopTag
        · have hskip : skipPiece fdt tag ((off : Int) + 4) =
              .ok (some (toInt (off + 4 : Nat))) := by
            rw [toInt_natCast (by omega)]
            simp only [skipPiece, if_neg hbegin, if_neg hprop, if_pos hother]
            rfl
          rcases hother with htag | htag | htag
          · exact hfound .finish 4 htag (by omega) (by omega) (fun _ => trivial) hskip
          · exact hfound .endNode 4 htag (by omega) (by omega) (fun _ => trivial) hskip
          · exact hfound .nop 4 htag (by omega) (by omega) (fun _ => trivial) hskip
        · exact Or.inr (hbad (by simp only [skipPiece, if_neg hbegin, if_neg hprop, if_neg hother]))

theorem PieceAt.lt_max {off next : Nat} {piece : Piece} (h : Framed fdt)
    (hp : PieceAt fdt off piece next) : off < 2 ^ 31 ∧ next < 2 ^ 31 := by
  have hint := h.int
  have hblock := h.block
  have hlt := hp.lt
  have hbound := hp.bound
  simp only [intMax, fdtV1Size] at hint hblock
  omega

theorem fdtNextTag_neg {off : Int} (h : off < 0) :
    fdtNextTag fdt off = .ok (fdtEndTag, -fdtErrTruncated) := by
  rw [fdtNextTag, fdtOffsetPtr_neg h]

/-- An offset that passed its check is that of a piece of the kind. -/
def Passed (fdt : FdtBuf) (tag : Nat) (off r : Int) : Prop :=
  r < 2 ^ 31 ∧ (0 ≤ r → ∃ (n next : Nat) (piece : Piece), off = n ∧ r = next ∧
    n % fdtTagsize = 0 ∧ piece.tag = tag ∧ PieceAt fdt n piece next)

theorem checkOffset_eq {tag found : Nat} {n : Nat} {next : Int} (hn : n % fdtTagsize = 0)
    (h : fdtNextTag fdt n = .ok (found, next)) :
    checkOffset tag fdt n = .ok (if found ≠ tag then -fdtErrBadoffset else next) := by
  have hgood : ¬ ((n : Int) < 0 ∨ (n : Int) % fdtTagsize ≠ 0) := by omega
  simp only [checkOffset, if_neg hgood, h, bind, Except.bind, pure, Except.pure]

theorem checkOffset_spec (h : Framed fdt) {tag : Nat} (htag : tag ≠ fdtEndTag) {off : Int}
    (hoff : off < 2 ^ 31) : ∃ r, checkOffset tag fdt off = .ok r ∧ Passed fdt tag off r := by
  have hfail : Passed fdt tag off (-fdtErrBadoffset) :=
    ⟨by decide, fun h' => absurd h' (by decide)⟩
  by_cases hbad : off < 0 ∨ off % fdtTagsize ≠ 0
  · exact ⟨-fdtErrBadoffset, by rw [checkOffset, if_pos hbad], hfail⟩
  obtain ⟨n, rfl⟩ := Int.eq_ofNat_of_zero_le (by omega : 0 ≤ off)
  rcases fdtNextTag_spec h (show n < 2 ^ 31 by omega) with ⟨piece, next, hp⟩ | ⟨err, herr, -⟩
  · refine ⟨_, checkOffset_eq (by omega) hp.tag, ?_⟩
    by_cases hkind : piece.tag = tag
    · rw [if_neg (not_not.mpr hkind)]
      have hmax := hp.lt_max h
      exact ⟨by omega, fun _ => ⟨n, next, piece, rfl, rfl, by omega, hkind, hp⟩⟩
    · rwa [if_pos hkind]
  · refine ⟨_, checkOffset_eq (by omega) herr, ?_⟩
    rwa [if_pos (Ne.symm htag)]

theorem Piece.tag_beginNode {piece : Piece} (h : piece.tag = fdtBeginNodeTag) :
    ∃ name, piece = .beginNode name := by
  cases piece with
  | beginNode name => exact ⟨name, rfl⟩
  | prop | endNode | nop | finish => cases h

theorem Piece.tag_prop {piece : Piece} (h : piece.tag = fdtPropTag) :
    ∃ nameoff value, piece = .prop nameoff value := by
  cases piece with
  | prop nameoff value => exact ⟨nameoff, value, rfl⟩
  | beginNode | endNode | nop | finish => cases h

/-- Enough rounds for a walk from this offset on. -/
def Rounds (fdt : FdtBuf) (off rounds : Nat) : Prop :=
  0 < rounds ∧ fdt.totalsize < fdt.offDtStruct + off + rounds

theorem rounds_start (h : Framed fdt) (off : Nat) : Rounds fdt off (fdt.mem.length + 1) := by
  have hsize := h.size
  exact ⟨Nat.succ_pos _, by omega⟩

theorem Rounds.next {off rounds next : Nat} {piece : Piece} (h : Rounds fdt off (rounds + 1))
    (hp : PieceAt fdt off piece next) {off' : Nat} (hoff' : off < off') :
    Rounds fdt off' rounds := by
  have hlt := hp.lt
  have hbound := hp.bound
  have htotal := h.2
  exact ⟨by omega, by omega⟩

/-- What a search for a node may find from an offset on: none, a node, or the end of one. -/
structure NodeFound (fdt : FdtBuf) (off : Int) (found : Int) (depth : Option Int) : Prop where
  max : found < 2 ^ 31
  node : found < 0 ∨ (∃ (n next : Nat) (name : CString), found = n ∧ off ≤ n ∧
    PieceAt fdt n (.beginNode name) next) ∨ ∃ d, depth = some d ∧ d < 0

section
variable {off next : Int} {rounds : Nat} {depth : Option Int}

theorem nextNodeLoop_begin (htag : fdtNextTag fdt off = .ok (fdtBeginNodeTag, next)) :
    nextNodeLoop fdt (rounds + 1) off depth = .ok (off, depth.map (· + 1)) := by
  simp only [nextNodeLoop, htag, bind, Except.bind, pure, Except.pure]
  rw [if_pos trivial]

theorem nextNodeLoop_end (htag : fdtNextTag fdt off = .ok (fdtEndNodeTag, next)) :
    nextNodeLoop fdt (rounds + 1) off depth =
      if (depth.map (· - 1)).any (· < 0) then .ok (next, depth.map (· - 1))
      else nextNodeLoop fdt rounds next (depth.map (· - 1)) := by
  simp only [nextNodeLoop, htag, bind, Except.bind, pure, Except.pure]
  rw [if_neg (by decide), if_pos trivial]

theorem nextNodeLoop_finish (htag : fdtNextTag fdt off = .ok (fdtEndTag, next)) :
    nextNodeLoop fdt (rounds + 1) off depth =
      .ok (if 0 ≤ next ∨ (next = -fdtErrTruncated ∧ depth = none) then -fdtErrNotfound else next,
        depth) := by
  simp only [nextNodeLoop, htag, bind, Except.bind, pure, Except.pure]
  rw [if_neg (by decide), if_neg (by decide), if_pos trivial]
  split_ifs <;> rfl

theorem nextNodeLoop_skip {tag : Nat} (hkind : tag = fdtPropTag ∨ tag = fdtNopTag)
    (htag : fdtNextTag fdt off = .ok (tag, next)) :
    nextNodeLoop fdt (rounds + 1) off depth = nextNodeLoop fdt rounds next depth := by
  simp only [nextNodeLoop, htag, bind, Except.bind]
  rcases hkind with rfl | rfl <;>
    rw [if_neg (by decide), if_neg (by decide), if_neg (by decide)]

end

theorem nextNodeLoop_spec (h : Framed fdt) {rounds off : Nat} (hr : Rounds fdt off rounds)
    (hoff : off < 2 ^ 31) (depth : Option Int) : ∃ found depth',
      nextNodeLoop fdt rounds off depth = .ok (found, depth') ∧
        NodeFound fdt off found depth' := by
  induction rounds generalizing off depth with
  | zero => exact absurd hr.1 (by omega)
  | succ rounds ih =>
    rcases fdtNextTag_spec h hoff with ⟨piece, next, hp⟩ | ⟨err, herr, hneg⟩
    · have hlt := hp.lt
      have hmax := hp.lt_max h
      have hrest : ∀ depth, ∃ found depth',
          nextNodeLoop fdt rounds next depth = .ok (found, depth') ∧
            NodeFound fdt off found depth' := fun depth => by
        obtain ⟨found, depth', hrun, hfound⟩ := ih (hr.next hp (by omega)) hmax.2 depth
        refine ⟨found, depth', hrun, hfound.max, hfound.node.imp_right (Or.imp_left ?_)⟩
        rintro ⟨n, next', name, hn, hle, hp'⟩
        exact ⟨n, next', name, hn, by omega, hp'⟩
      cases piece with
      | beginNode name =>
        exact ⟨off, depth.map (· + 1), nextNodeLoop_begin hp.tag, by omega,
          Or.inr (Or.inl ⟨off, next, name, rfl, by omega, hp⟩)⟩
      | endNode =>
        rw [nextNodeLoop_end hp.tag]
        by_cases hd : (depth.map (· - 1)).any (· < 0)
        · obtain ⟨d, hd', hlt0⟩ := (Option.any_eq_true _ _).mp hd
          rw [if_pos hd]
          exact ⟨_, _, rfl, by omega, Or.inr (Or.inr ⟨d, hd', by simpa using hlt0⟩)⟩
        · rw [if_neg hd]
          exact hrest _
      | finish =>
        rw [nextNodeLoop_finish hp.tag, if_pos (Or.inl (Int.natCast_nonneg next))]
        exact ⟨_, _, rfl, by decide, Or.inl (by decide)⟩
      | prop nameoff value =>
        rw [nextNodeLoop_skip (Or.inl rfl) hp.tag]
        exact hrest depth
      | nop =>
        rw [nextNodeLoop_skip (Or.inr rfl) hp.tag]
        exact hrest depth
    · have hneg' : -err < 0 := by rcases hneg with rfl | rfl <;> decide
      rw [nextNodeLoop_finish herr]
      have hcode : (if 0 ≤ -err ∨ (-err = -fdtErrTruncated ∧ depth = none) then -fdtErrNotfound
          else -err) < 0 := by
        split_ifs
        · decide
        · exact hneg'
      exact ⟨_, _, rfl, by omega, Or.inl hcode⟩

theorem fdtNextNode_spec (h : Framed fdt) {off : Int} (hoff : off < 2 ^ 31) (depth : Option Int) :
    ∃ found depth', fdtNextNode fdt off depth = .ok (found, depth') ∧
      NodeFound fdt (max (off + 1) 0) found depth' := by
  have hloop : ∀ start : Nat, start < 2 ^ 31 → max (off + 1) 0 ≤ start → ∃ found depth',
      nextNodeLoop fdt (fdt.mem.length + 1) start depth = .ok (found, depth') ∧
        NodeFound fdt (max (off + 1) 0) found depth' := fun start hmax hle => by
    obtain ⟨found, depth', hrun, hfound⟩ := nextNodeLoop_spec h (rounds_start h start) hmax depth
    refine ⟨found, depth', hrun, hfound.max, hfound.node.imp_right (Or.imp_left ?_)⟩
    rintro ⟨n, next, name, hn, hle', hp⟩
    exact ⟨n, next, name, hn, by omega, hp⟩
  by_cases hneg : 0 ≤ off
  · obtain ⟨r, hr, hmax, hpassed⟩ :=
      checkOffset_spec h (show fdtBeginNodeTag ≠ fdtEndTag by decide) hoff
    simp only [fdtNextNode, if_pos hneg, fdtCheckNodeOffset, hr, bind, Except.bind, pure,
      Except.pure]
    by_cases hr0 : r < 0
    · rw [if_pos hr0]
      exact ⟨_, _, rfl, by omega, Or.inl hr0⟩
    · obtain ⟨n, next, piece, hn, hnext, -, -, hp⟩ := hpassed (by omega)
      rw [if_neg hr0, hnext]
      have hlt := hp.lt
      exact hloop next (by omega) (by omega)
  · rw [fdtNextNode, if_neg hneg]
    exact hloop 0 (by decide) (by omega)

end

end Xenlib.Libfdt
