import Xenlib.FdtPieces

/-!
The bytes of a structure block. The padding after a name or a value may hold anything.
-/

set_option autoImplicit false

namespace Xenlib.Libfdt

/-- The bytes in front of the name or the value. -/
def Piece.head : Piece → Bytes
  | .prop nameoff value =>
    cpuToFdt32 fdtPropTag ++ (cpuToFdt32 value.length ++ cpuToFdt32 nameoff)
  | piece => cpuToFdt32 piece.tag

/-- The name with its NUL, or the value. -/
def Piece.body : Piece → Bytes
  | .beginNode name => strBytes name
  | .prop _ value => value
  | _ => []

def Piece.Fits : Piece → Prop
  | .prop nameoff value => nameoff < 2 ^ 32 ∧ value.length < 2 ^ 31
  | _ => True

def Piece.size (piece : Piece) : Nat := piece.head.length + fdtTagalign piece.body.length

structure Laid (piece : Piece) (bs : Bytes) : Prop where
  fits : piece.Fits
  start : piece.head ++ piece.body <+: bs
  length : bs.length = piece.size

inductive LaidAll : List Piece → Bytes → Prop
  | nil : LaidAll [] []
  | cons {piece : Piece} {pieces : List Piece} {bs rest : Bytes} :
      Laid piece bs → LaidAll pieces rest → LaidAll (piece :: pieces) (bs ++ rest)

theorem LaidAll.append {ps qs : List Piece} {bs cs : Bytes} (hp : LaidAll ps bs)
    (hq : LaidAll qs cs) : LaidAll (ps ++ qs) (bs ++ cs) := by
  induction hp with
  | nil => exact hq
  | cons hlaid _ ih =>
    rw [List.append_assoc]
    exact .cons hlaid ih

theorem LaidAll.single {piece : Piece} {bs : Bytes} (h : Laid piece bs) : LaidAll [piece] bs := by
  simpa using LaidAll.cons h .nil

theorem Piece.head_length (piece : Piece) :
    piece.head.length = 4 ∨ piece.head.length = 12 := by
  cases piece <;> simp [Piece.head, cpuToFdt32]

theorem Laid.mod {piece : Piece} {bs : Bytes} (h : Laid piece bs) :
    bs.length % fdtTagsize = 0 := by
  have halign := fdtTagalign_mod piece.body.length
  rw [h.length, Piece.size]
  simp only [fdtTagsize] at halign ⊢
  rcases piece.head_length with hlen | hlen <;> omega

theorem LaidAll.mod {pieces : List Piece} {bs : Bytes} (h : LaidAll pieces bs) :
    bs.length % fdtTagsize = 0 := by
  induction h with
  | nil => rfl
  | cons hlaid _ ih =>
    have hmod := hlaid.mod
    rw [List.length_append]
    simp only [fdtTagsize] at hmod ih ⊢
    omega

theorem be32At_append (a : Bytes) (v : Nat) (c : Bytes) :
    be32At (a ++ (cpuToFdt32 v ++ c)) a.length = v % 2 ^ 32 := by
  rw [be32At_eq, Span.slice_append rfl (by simp [cpuToFdt32]), cpuToFdt32, BigEndian.value_bytes,
    show 256 ^ 4 = 2 ^ 32 by decide]

theorem str_append {fdt : FdtBuf} {a c : Bytes} {s : CString}
    (h : fdt.mem = a ++ (strBytes s ++ c)) :
    fdt.str a.length = .ok s := by
  rw [FdtBuf.str, h, List.drop_left, readStr_strBytes]

structure BlockIn (fdt : FdtBuf) (block : Bytes) : Prop where
  framed : Framed fdt
  version : 0x10 ≤ fdt.version
  size : 0x11 ≤ fdt.version → fdt.sizeDtStruct = block.length
  mem : ∃ a c, fdt.mem = a ++ (block ++ c) ∧ fdt.offDtStruct = a.length
  fits : fdt.offDtStruct + block.length ≤ fdt.totalsize

section
variable {fdt : FdtBuf}

theorem skipName_str (h : Framed fdt) {name : CString} {rounds off : Nat}
    (hstr : fdt.str (fdt.offDtStruct + off) = .ok name)
    (hfit : fdt.offDtStruct + off + name.length + 1 ≤ fdt.totalsize)
    (hblock : 0x11 ≤ fdt.version → off + name.length + 1 ≤ fdt.sizeDtStruct)
    (hrounds : name.length < rounds) :
    skipName fdt rounds off = .ok (some (off + name.length + 1 : Nat)) := by
  have hint := h.int
  simp only [intMax] at hint
  induction rounds generalizing off name with
  | zero => omega
  | succ rounds ih =>
    have hlt : fdt.offDtStruct + off < fdt.mem.length := by
      have hsize := h.size
      omega
    have hptr : fdtOffsetPtr fdt off 1 = some (fdt.offDtStruct + off) :=
      (fdtOffsetPtr_iff (by omega) (by decide)).mpr ⟨rfl, by omega, fun hv => by
        have hle := hblock hv
        omega⟩
    rw [skipName, hptr]
    simp only [byte_ok hlt, bind, Except.bind, pure, Except.pure]
    cases name with
    | nil =>
      have hb : fdt.mem[fdt.offDtStruct + off] = 0 := by
        by_contra hb
        simp only [FdtBuf.str, List.drop_eq_getElem_cons hlt, readStr, dif_neg hb] at hstr
        cases hr : readStr (fdt.mem.drop (fdt.offDtStruct + off + 1)) <;> simp [hr] at hstr
      rw [if_pos hb]
      rfl
    | cons c cs =>
      have hb : fdt.mem[fdt.offDtStruct + off] ≠ 0 := by
        intro hb
        rw [str_nil hlt hb] at hstr
        cases hstr
      have hrest : fdt.str (fdt.offDtStruct + (off + 1)) = .ok cs := by
        cases hr : fdt.str (fdt.offDtStruct + off + 1) with
        | error e =>
          simp only [FdtBuf.str, List.drop_eq_getElem_cons hlt, readStr, dif_neg hb] at hstr hr
          cases hr' : readStr (fdt.mem.drop (fdt.offDtStruct + off + 1)) <;> simp [hr'] at hstr hr
        | ok s =>
          have hcons := str_cons hlt hb hr
          rw [hstr] at hcons
          exact congrArg Except.ok (List.cons.inj (Except.ok.inj hcons)).2.symm
      rw [List.length_cons] at hfit hrounds
      have hle : 0x11 ≤ fdt.version → off + 1 + cs.length + 1 ≤ fdt.sizeDtStruct := fun hv => by
        have hle := hblock hv
        rw [List.length_cons] at hle
        omega
      rw [if_neg hb]
      have hind := ih hrest (by omega) hle (by omega)
      rw [List.length_cons, show off + (cs.length + 1) + 1 = off + 1 + cs.length + 1 by omega,
        ← hind]
      rfl

theorem pieceAt_of (h : Framed fdt) {off size : Nat} {piece : Piece}
    (htag : fdt.ld32 (fdt.offDtStruct + off) = .ok piece.tag)
    (hskip : skipPiece fdt piece.tag ((off : Int) + 4) = .ok (some (toInt (off + size : Nat))))
    (hmin : 4 ≤ size) (hfit : fdt.offDtStruct + off + size ≤ fdt.totalsize)
    (hblock : 0x11 ≤ fdt.version → off + size ≤ fdt.sizeDtStruct)
    (hholds : fdt.Holds (fdt.offDtStruct + off) piece) :
    PieceAt fdt off piece (fdtTagalign (off + size)) := by
  have hint := h.int
  have hstart := h.block
  simp only [intMax, fdtV1Size] at hint hstart
  have hptr : ∀ len, len ≤ size → fdtOffsetPtr fdt off len = some (fdt.offDtStruct + off) :=
    fun len hlen => (fdtOffsetPtr_iff (by omega) (by omega)).mpr ⟨rfl, by omega, fun hv => by
      have hle := hblock hv
      omega⟩
  have halign := fdtTagalign_bounds (off + size)
  have hsize : toUint (toInt (off + size : Nat) - off) = size := by
    simp only [toUint, toInt]
    omega
  have hend : toInt (fdtTagalign (toUint (toInt (off + size : Nat)))) =
      fdtTagalign (off + size) := by
    have hend : off + size < 2 ^ 31 := by omega
    rw [toInt_natCast hend, toUint_natCast (Nat.lt_trans hend (by decide)),
      toInt_natCast (show fdtTagalign (off + size) < 2 ^ 31 by omega)]
  refine ⟨?_, hholds, by omega, fdtTagalign_mod _, by omega⟩
  simp only [fdtNextTag, hptr fdtTagsize hmin, htag, hskip, bind, Except.bind, pure, Except.pure,
    closePiece, hsize, hptr size (Nat.le_refl _), hend]

theorem skipProp_ld32 (h : Framed fdt) (hversion : 0x10 ≤ fdt.version) {off len : Nat}
    (hlen : fdt.ld32 (fdt.offDtStruct + off) = .ok len)
    (hfit : fdt.offDtStruct + off + 8 + len ≤ fdt.totalsize)
    (hblock : 0x11 ≤ fdt.version → off + 8 + len ≤ fdt.sizeDtStruct) :
    skipProp fdt off = .ok (some (toInt (off + (8 + len) : Nat))) := by
  have hint := h.int
  have hstart := h.block
  simp only [intMax, fdtV1Size] at hint hstart
  have hptr : fdtOffsetPtr fdt off fdtTagsize = some (fdt.offDtStruct + off) := by
    simp only [fdtTagsize]
    exact (fdtOffsetPtr_iff (by omega) (by decide)).mpr ⟨rfl, by omega, fun hv => by
      have hle := hblock hv
      omega⟩
  have hsum :
      ¬ (intMax ≤ toUint ((len : Int) + off) ∨ toUint ((len : Int) + off) < toUint off) := by
    simp only [intMax, toUint]
    omega
  simp only [skipProp, hptr, hlen, bind, Except.bind, pure, Except.pure]
  rw [if_neg hsum, if_neg (fun hold => by omega)]
  exact congrArg (fun n => Except.ok (some (toInt n))) (by omega)

theorem ld32_append {a c : Bytes} {v : Nat} (hv : v < 2 ^ 32)
    (h : fdt.mem = a ++ (cpuToFdt32 v ++ c)) : fdt.ld32 a.length = .ok v := by
  have hlen : a.length + 4 ≤ fdt.mem.length := by
    rw [h]
    simp [cpuToFdt32]
  rw [ld32_ok hlen, h, be32At_append, Nat.mod_eq_of_lt hv]

theorem bytes_append {a b c : Bytes} (h : fdt.mem = a ++ (b ++ c)) :
    fdt.bytes a.length b.length = .ok b := by
  have hlen : a.length + b.length ≤ fdt.mem.length := by
    rw [h]
    simp
  rw [bytes_ok hlen, h, Span.slice_append rfl rfl]

theorem holds_of_mem {a c : Bytes} {piece : Piece} (hfits : piece.Fits)
    (h : fdt.mem = a ++ (piece.head ++ (piece.body ++ c))) :
    fdt.ld32 a.length = .ok piece.tag ∧ fdt.Holds a.length piece := by
  have hlen : ∀ (b : Bytes) (v : Nat), (b ++ cpuToFdt32 v).length = b.length + 4 := fun b v => by
    rw [List.length_append, cpuToFdt32, BigEndian.bytes_length]
  cases piece with
  | beginNode name =>
    have hstr := str_append (a := a ++ cpuToFdt32 fdtBeginNodeTag) (s := name) (c := c)
      (by rw [List.append_assoc]; exact h)
    rw [hlen] at hstr
    exact ⟨ld32_append (show fdtBeginNodeTag < 2 ^ 32 by decide) h, hstr⟩
  | prop nameoff value =>
    simp only [Piece.head, Piece.body, List.append_assoc] at h
    have hlen32 := ld32_append (a := a ++ cpuToFdt32 fdtPropTag) (v := value.length)
      (Nat.lt_trans hfits.2 (by decide)) (by rw [List.append_assoc]; exact h)
    have hname := ld32_append (a := a ++ cpuToFdt32 fdtPropTag ++ cpuToFdt32 value.length)
      hfits.1 (by simp only [List.append_assoc]; exact h)
    have hvalue := bytes_append
      (a := a ++ cpuToFdt32 fdtPropTag ++ cpuToFdt32 value.length ++ cpuToFdt32 nameoff)
      (b := value) (by simp only [List.append_assoc]; exact h)
    simp only [hlen] at hlen32 hname hvalue
    exact ⟨ld32_append (show fdtPropTag < 2 ^ 32 by decide) h, hfits.2, hlen32, hname, hvalue⟩
  | endNode | nop | finish => exact ⟨ld32_append (by decide) h, trivial⟩

theorem skipPiece_holds (h : Framed fdt) (hversion : 0x10 ≤ fdt.version) {off : Nat}
    {piece : Piece} (hholds : fdt.Holds (fdt.offDtStruct + off) piece)
    (hfit : fdt.offDtStruct + off + (piece.head.length + piece.body.length) ≤ fdt.totalsize)
    (hblock : 0x11 ≤ fdt.version →
      off + (piece.head.length + piece.body.length) ≤ fdt.sizeDtStruct) :
    skipPiece fdt piece.tag ((off : Int) + 4) =
      .ok (some (toInt (off + (piece.head.length + piece.body.length) : Nat))) := by
  have hint := h.int
  have hsize := h.size
  simp only [intMax] at hint
  cases piece with
  | beginNode name =>
    have hbody : (Piece.beginNode name).body.length = name.length + 1 := strBytes_length name
    have hhead : (Piece.beginNode name).head.length = 4 := by simp [Piece.head, cpuToFdt32]
    rw [hbody, hhead] at hfit hblock ⊢
    have hskip := skipName_str h
      (show fdt.str (fdt.offDtStruct + (off + 4)) = .ok name from hholds) (by omega)
      (fun hv => by have hle := hblock hv; omega) (show name.length < fdt.mem.length + 1 by omega)
    rw [show off + (4 + (name.length + 1)) = off + 4 + name.length + 1 by omega,
      toInt_natCast (by omega), ← hskip]
    rfl
  | prop nameoff value =>
    have hbody : (Piece.prop nameoff value).body.length = value.length := rfl
    have hhead : (Piece.prop nameoff value).head.length = 12 := by simp [Piece.head, cpuToFdt32]
    rw [hbody, hhead] at hfit hblock ⊢
    have hskip := skipProp_ld32 h hversion
      (show fdt.ld32 (fdt.offDtStruct + (off + 4)) = .ok value.length from hholds.2.1) (by omega)
      (fun hv => by have hle := hblock hv; omega)
    rw [show off + (12 + value.length) = off + 4 + (8 + value.length) by omega, ← hskip]
    rfl
  | endNode | nop | finish =>
    simp only [Piece.head, Piece.body, cpuToFdt32, BigEndian.bytes_length,
      List.length_nil] at hfit ⊢
    rw [toInt_natCast (by omega)]
    rfl

theorem BlockIn.pieceAt {done bs rest : Bytes} {piece : Piece}
    (h : BlockIn fdt (done ++ (bs ++ rest))) (hlaid : Laid piece bs)
    (hmod : done.length % fdtTagsize = 0) :
    PieceAt fdt done.length piece (done.length + bs.length) := by
  obtain ⟨a, c, hmem, hstart⟩ := h.mem
  obtain ⟨pad, hbs⟩ := hlaid.start
  have hlen := hlaid.length
  have halign := fdtTagalign_bounds piece.body.length
  have hhead := piece.head_length
  have hfits := h.fits
  have hsize := h.size
  simp only [List.length_append, hlen, Piece.size] at hfits hsize
  have hnext : done.length + bs.length =
      fdtTagalign (done.length + (piece.head.length + piece.body.length)) := by
    rw [hlen, Piece.size]
    simp only [fdtTagsize] at hmod
    simp only [fdtTagalign]
    rcases hhead with hhead | hhead <;> omega
  have hparts : fdt.mem = (a ++ done) ++ (piece.head ++ (piece.body ++ (pad ++ (rest ++ c)))) := by
    rw [hmem, ← hbs]
    simp only [List.append_assoc]
  have hblock : 0x11 ≤ fdt.version →
      done.length + (piece.head.length + piece.body.length) ≤ fdt.sizeDtStruct := fun hv => by
    have heq := hsize hv
    omega
  obtain ⟨htag, hholds⟩ := holds_of_mem hlaid.fits hparts
  rw [List.length_append, ← hstart] at htag hholds
  rw [hnext]
  exact pieceAt_of h.framed htag (skipPiece_holds h.framed h.version hholds (by omega) hblock)
    (by omega) (by omega) hblock hholds

end

end Xenlib.Libfdt
