import Xenlib.FdtPieces

/-!
The readers on a buffer whose header has passed its check, whatever the rest of it holds: they
return, and touch nothing outside of the tree.
-/

set_option autoImplicit false

namespace Xenlib.Libfdt

variable {fdt : FdtBuf}

theorem fdtFirstSubnode_spec (h : Framed fdt) {off : Int} (hoff : off < 2 ^ 31) :
    ∃ r, fdtFirstSubnode fdt off = .ok r ∧ r < 2 ^ 31 := by
  obtain ⟨found, depth', hrun, hfound⟩ := fdtNextNode_spec h hoff (some 0)
  have hmax := hfound.max
  simp only [fdtFirstSubnode, hrun, bind, Except.bind, pure, Except.pure]
  refine ⟨_, rfl, ?_⟩
  split_ifs
  · decide
  · exact hmax

theorem Rounds.found {off : Int} {rounds n next : Nat} {name : CString}
    (h : Rounds fdt (off + 1).toNat (rounds + 1)) (hle : max (off + 1) 0 ≤ n)
    (hp : PieceAt fdt n (.beginNode name) next) : Rounds fdt (n + 1) rounds := by
  have hlt := hp.lt
  have hbound := hp.bound
  have htotal := h.2
  exact ⟨by omega, by omega⟩

theorem nextSubnodeLoop_spec (h : Framed fdt) {rounds : Nat} {off : Int}
    (hr : Rounds fdt (off + 1).toNat rounds) (hoff : off < 2 ^ 31) (depth : Int) :
    ∃ r, nextSubnodeLoop fdt rounds off depth = .ok r ∧ r < 2 ^ 31 := by
  induction rounds generalizing off depth with
  | zero => exact absurd hr.1 (by omega)
  | succ rounds ih =>
    obtain ⟨found, depth', hrun, hmax, hnode⟩ := fdtNextNode_spec h hoff (some depth)
    simp only [nextSubnodeLoop, hrun, bind, Except.bind, pure, Except.pure]
    split_ifs with hdone hdeep
    · exact ⟨_, rfl, by decide⟩
    · rcases hnode with hneg | ⟨n, next, name, rfl, hle, hp⟩ | ⟨d, hd, hneg⟩
      · exact absurd (Or.inl hneg) hdone
      · exact @ih n (by simpa using hr.found hle hp) hmax _
      · rw [hd, Option.getD_some] at hdeep
        omega
    · exact ⟨_, rfl, hmax⟩

theorem rounds_offset (h : Framed fdt) (off : Int) :
    Rounds fdt (off + 1).toNat (fdt.mem.length + 1) := rounds_start h _

theorem fdtNextSubnode_spec (h : Framed fdt) {off : Int} (hoff : off < 2 ^ 31) :
    ∃ r, fdtNextSubnode fdt off = .ok r ∧ r < 2 ^ 31 :=
  nextSubnodeLoop_spec h (rounds_offset h off) hoff 1

theorem memchrNul_ok {p len : Nat} (h : p + len ≤ fdt.mem.length) :
    ∃ r, fdt.memchrNul p len = .ok r := by
  unfold FdtBuf.memchrNul
  cases readStr (Span.slice fdt.mem p len) with
  | ok s => exact ⟨_, rfl⟩
  | error e => exact ⟨none, if_pos h⟩

theorem roProbeHeader_nonpos (fdt : FdtBuf) : roProbeHeader fdt ≤ 0 := by
  unfold roProbeHeader
  split_ifs <;> decide

theorem fdtRoProbe_size (fdt : FdtBuf) :
    fdtRoProbe fdt < 0 ∨ fdtRoProbe fdt = fdt.totalsize := by
  have hcode := roProbeHeader_nonpos fdt
  unfold fdtRoProbe
  split_ifs with hheader
  · exact Or.inl (by omega)
  · exact Or.inr rfl
  · exact Or.inl (by decide)

theorem stringSpan_le {stroffset : Int} {p len : Nat}
    (h : stringSpan fdt stroffset = .ok (p, len)) : p + len ≤ fdt.totalsize := by
  unfold stringSpan at h
  rcases fdtRoProbe_size fdt with hneg | htotal
  · simp [hneg] at h
  · simp only [htotal, Int.toNat_natCast] at h
    split_ifs at h <;> cases h <;> omega

theorem fdtGetString_spec (h : Framed fdt) (stroffset : Int) :
    ∃ r, fdtGetString fdt stroffset = .ok r := by
  unfold fdtGetString
  cases hspan : stringSpan fdt stroffset with
  | error err => exact ⟨_, rfl⟩
  | ok span =>
    obtain ⟨r, hr⟩ := memchrNul_ok (Nat.le_trans (stringSpan_le hspan) h.size)
    simp only [hr, bind, Except.bind]
    cases r with
    | none => exact ⟨_, rfl⟩
    | some s => exact ⟨_, rfl⟩

theorem fdtGetName_spec (h : Framed fdt) {off : Int} (hoff : off < 2 ^ 31) :
    ∃ r, fdtGetName fdt off = .ok r := by
  by_cases hprobe : fdtRoProbe fdt < 0
  · exact ⟨_, if_pos hprobe⟩
  obtain ⟨r, hr, -, hpassed⟩ :=
    checkOffset_spec h (show fdtBeginNodeTag ≠ fdtEndTag by decide) hoff
  simp only [fdtGetName, if_neg hprobe, fdtCheckNodeOffset, hr, bind, Except.bind, pure,
    Except.pure]
  by_cases hneg : r < 0
  · exact ⟨_, if_pos hneg⟩
  · obtain ⟨n, next, piece, rfl, -, -, hkind, hp⟩ := hpassed (by omega)
    obtain ⟨name, rfl⟩ := Piece.tag_beginNode hkind
    have hstr : fdt.str (fdt.offDtStruct + n + 4) = .ok name := hp.holds
    simp only [if_neg hneg, Int.toNat_natCast, hstr]
    by_cases hold : fdt.version < 0x10
    · rw [if_pos hold]
      cases strrchr slash name with
      | none => exact ⟨_, rfl⟩
      | some leaf => exact ⟨_, rfl⟩
    · exact ⟨_, if_neg hold⟩

theorem fdtNodenameEq_spec (h : Framed fdt) {off : Int} (hoff : off < 2 ^ 31) (s : CString) :
    ∃ r, fdtNodenameEq fdt off s = .ok r := by
  obtain ⟨r, hr⟩ := fdtGetName_spec h hoff
  simp only [fdtNodenameEq, hr, bind, Except.bind]
  cases r with
  | error err => exact ⟨_, rfl⟩
  | ok name => exact ⟨_, rfl⟩

theorem fdtStringEq_spec (h : Framed fdt) (stroffset : Int) (s : CString) :
    ∃ r, fdtStringEq fdt stroffset s = .ok r := by
  obtain ⟨r, hr⟩ := fdtGetString_spec h stroffset
  simp only [fdtStringEq, hr, bind, Except.bind]
  cases r with
  | error err => exact ⟨_, rfl⟩
  | ok name => exact ⟨_, rfl⟩

/-- What the search for a property may find from an offset on. -/
def PropFound (fdt : FdtBuf) (off r : Int) : Prop :=
  r < 0 ∨ ∃ (n next nameoff : Nat) (value : Bytes), r = n ∧ off ≤ n ∧
    PieceAt fdt n (.prop nameoff value) next

section
variable {off next : Int} {rounds : Nat}

theorem nextProp_prop (htag : fdtNextTag fdt off = .ok (fdtPropTag, next)) :
    nextProp fdt (rounds + 1) off = .ok off := by
  simp only [nextProp, htag, bind, Except.bind, pure, Except.pure]
  rw [if_neg (by decide), if_pos trivial]

theorem nextProp_nop (htag : fdtNextTag fdt off = .ok (fdtNopTag, next)) :
    nextProp fdt (rounds + 1) off = nextProp fdt rounds next := by
  simp only [nextProp, htag, bind, Except.bind]
  rw [if_neg (by decide), if_neg (by decide), if_pos trivial]

theorem nextProp_finish (htag : fdtNextTag fdt off = .ok (fdtEndTag, next)) :
    nextProp fdt (rounds + 1) off = .ok (if 0 ≤ next then -fdtErrBadstructure else next) := by
  simp only [nextProp, htag, bind, Except.bind, pure, Except.pure]
  rw [if_pos trivial]

theorem nextProp_node {tag : Nat} (hkind : tag = fdtBeginNodeTag ∨ tag = fdtEndNodeTag)
    (htag : fdtNextTag fdt off = .ok (tag, next)) :
    nextProp fdt (rounds + 1) off = .ok (-fdtErrNotfound) := by
  simp only [nextProp, htag, bind, Except.bind, pure, Except.pure]
  rcases hkind with rfl | rfl <;>
    rw [if_neg (by decide), if_neg (by decide), if_neg (by decide)]

end

theorem nextProp_spec (h : Framed fdt) {rounds off : Nat} (hr : Rounds fdt off rounds)
    (hoff : off < 2 ^ 31) :
    ∃ r, nextProp fdt rounds off = .ok r ∧ PropFound fdt off r := by
  induction rounds generalizing off with
  | zero => exact absurd hr.1 (by omega)
  | succ rounds ih =>
    rcases fdtNextTag_spec h hoff with ⟨piece, next, hp⟩ | ⟨err, herr, hneg⟩
    · have hlt := hp.lt
      cases piece with
      | prop nameoff value =>
        exact ⟨_, nextProp_prop hp.tag, Or.inr ⟨off, next, nameoff, value, rfl, by omega, hp⟩⟩
      | nop =>
        rw [nextProp_nop hp.tag]
        obtain ⟨r, hrun, hfound⟩ := ih (hr.next hp (by omega)) (hp.lt_max h).2
        refine ⟨r, hrun, hfound.imp_right ?_⟩
        rintro ⟨n, next', nameoff, value, hn, hle, hp'⟩
        exact ⟨n, next', nameoff, value, hn, by omega, hp'⟩
      | finish =>
        rw [nextProp_finish hp.tag, if_pos (Int.natCast_nonneg next)]
        exact ⟨_, rfl, Or.inl (by decide)⟩
      | beginNode name => exact ⟨_, nextProp_node (Or.inl rfl) hp.tag, Or.inl (by decide)⟩
      | endNode => exact ⟨_, nextProp_node (Or.inr rfl) hp.tag, Or.inl (by decide)⟩
    · have hneg' : -err < 0 := by rcases hneg with rfl | rfl <;> decide
      rw [nextProp_finish herr, if_neg (by omega)]
      exact ⟨_, rfl, Or.inl hneg'⟩

theorem propAfter_spec (h : Framed fdt) {tag : Nat} (htag : tag ≠ fdtEndTag) {off : Int}
    (hoff : off < 2 ^ 31) : ∃ r, (do
      let offset ← checkOffset tag fdt off
      if offset < 0 then return offset else nextProp fdt (fdt.mem.length + 1) offset) = .ok r ∧
        PropFound fdt (off + 1) r := by
  obtain ⟨r, hr, -, hpassed⟩ := checkOffset_spec h htag hoff
  simp only [hr, bind, Except.bind, pure, Except.pure]
  by_cases hneg : r < 0
  · exact ⟨r, if_pos hneg, Or.inl hneg⟩
  · obtain ⟨n, next, piece, rfl, rfl, -, -, hp⟩ := hpassed (by omega)
    have hlt := hp.lt
    obtain ⟨r, hrun, hfound⟩ := nextProp_spec h (rounds_start h next) (hp.lt_max h).2
    refine ⟨r, (if_neg hneg).trans hrun, hfound.imp_right ?_⟩
    rintro ⟨m, next', nameoff, value, hm, hle, hp'⟩
    exact ⟨m, next', nameoff, value, hm, by omega, hp'⟩

theorem fdtFirstPropertyOffset_spec (h : Framed fdt) {off : Int} (hoff : off < 2 ^ 31) :
    ∃ r, fdtFirstPropertyOffset fdt off = .ok r ∧ PropFound fdt (off + 1) r :=
  propAfter_spec h (by decide) hoff

theorem fdtNextPropertyOffset_spec (h : Framed fdt) {off : Int} (hoff : off < 2 ^ 31) :
    ∃ r, fdtNextPropertyOffset fdt off = .ok r ∧ PropFound fdt (off + 1) r :=
  propAfter_spec h (by decide) hoff

theorem propertyByOffset_spec (h : Framed fdt) {off : Int} (hoff : off < 2 ^ 31) :
    ∃ r, propertyByOffset fdt off = .ok r ∧ ∀ prop, r = .ok prop →
      ∃ nameoff len, fdt.ld32 (prop.ptr + 8) = .ok nameoff ∧ fdt.ld32 (prop.ptr + 4) = .ok len ∧
        prop.ptr + 12 + len ≤ fdt.mem.length := by
  obtain ⟨r, hr, -, hpassed⟩ := checkOffset_spec h (show fdtPropTag ≠ fdtEndTag by decide) hoff
  simp only [propertyByOffset, fdtCheckPropOffset, hr, bind, Except.bind, pure, Except.pure]
  by_cases hneg : r < 0
  · exact ⟨_, if_pos hneg, fun prop hprop => by cases hprop⟩
  · obtain ⟨n, next, piece, rfl, -, -, hkind, hp⟩ := hpassed (by omega)
    obtain ⟨nameoff, value, rfl⟩ := Piece.tag_prop hkind
    obtain ⟨-, hlen, hname, hvalue⟩ := hp.holds
    simp only [if_neg hneg, Int.toNat_natCast, hlen]
    refine ⟨_, rfl, fun prop hprop => ?_⟩
    obtain rfl := Except.ok.inj hprop
    refine ⟨nameoff, value.length, hname, hlen, ?_⟩
    by_contra hout
    rw [FdtBuf.bytes, if_neg hout] at hvalue
    cases hvalue

theorem fdtGetPropertyByOffset_spec (h : Framed fdt) {off : Int} (hoff : off < 2 ^ 31) :
    ∃ r, fdtGetPropertyByOffset fdt off = .ok r := by
  unfold fdtGetPropertyByOffset
  split_ifs
  · exact ⟨_, rfl⟩
  · obtain ⟨r, hr, -⟩ := propertyByOffset_spec h hoff
    exact ⟨r, hr⟩

theorem propertyData_spec (off : Int) (prop : PropertyPtr) {len : Nat}
    (hlen : fdt.ld32 (prop.ptr + 4) = .ok len) : ∃ p, propertyData fdt off prop = .ok p := by
  simp only [propertyData, hlen, bind, Except.bind]
  exact ⟨_, rfl⟩

theorem fdtGetpropByOffset_spec (h : Framed fdt) {off : Int} (hoff : off < 2 ^ 31) :
    ∃ r, fdtGetpropByOffset fdt off = .ok r := by
  obtain ⟨r, hr, hin⟩ := propertyByOffset_spec h hoff
  simp only [fdtGetpropByOffset, hr, bind, Except.bind]
  cases r with
  | error err => exact ⟨_, rfl⟩
  | ok prop =>
    obtain ⟨nameoff, len, hname, hlen, -⟩ := hin prop rfl
    obtain ⟨s, hs⟩ := fdtGetString_spec h (toInt nameoff)
    obtain ⟨p, hp⟩ := propertyData_spec off _ hlen
    simp only [hname, hs, hp]
    cases s with
    | error err => exact ⟨_, rfl⟩
    | ok name => exact ⟨_, rfl⟩

theorem propertyNamelen_spec (h : Framed fdt) (name : CString) {rounds : Nat} {off : Int}
    (hpos : 0 < rounds) (hr : ∀ n : Nat, off = n → Rounds fdt n rounds)
    (hfound : PropFound fdt 0 off) : ∃ r, propertyNamelen fdt name rounds off = .ok r ∧
      ∀ poffset prop, r = .ok (poffset, prop) → ∃ len, fdt.ld32 (prop.ptr + 4) = .ok len := by
  induction rounds generalizing off with
  | zero => exact absurd hpos (by omega)
  | succ rounds ih =>
    rcases hfound with hneg | ⟨n, next, nameoff', value, rfl, -, hp⟩
    · exact ⟨_, if_pos hneg, fun poffset prop hprop => by cases hprop⟩
    have hoff := (hp.lt_max h).1
    obtain ⟨r, hprop, hin⟩ := propertyByOffset_spec h (show (n : Int) < 2 ^ 31 by omega)
    rw [propertyNamelen, if_neg (by omega), hprop]
    simp only [bind, Except.bind]
    cases r with
    | error err => exact ⟨_, rfl, fun poffset prop hprop => by cases hprop⟩
    | ok prop =>
      obtain ⟨nameoff, len, hname, hlen, -⟩ := hin prop rfl
      obtain ⟨eq, heq⟩ := fdtStringEq_spec h (toInt nameoff) name
      obtain ⟨r, hnext, hfound⟩ := fdtNextPropertyOffset_spec h (show (n : Int) < 2 ^ 31 by omega)
      simp only [hname, heq, hnext]
      cases eq with
      | true =>
        refine ⟨_, rfl, fun poffset prop' hprop' => ?_⟩
        obtain rfl := (Prod.mk.inj (Except.ok.inj hprop')).2
        exact ⟨len, hlen⟩
      | false =>
        have hlt := hp.lt
        have hbound := hp.bound
        have htotal := (hr n rfl).2
        refine ih (by omega) (fun m hm => ⟨by omega, ?_⟩) (hfound.imp_right ?_)
        · rcases hfound with hneg | ⟨m', next', _, _, hm', hle, -⟩ <;> omega
        · rintro ⟨m, next', nameoff, value, hm, hle, hp'⟩
          exact ⟨m, next', nameoff, value, hm, by omega, hp'⟩

theorem fdtGetpropNamelen_spec (h : Framed fdt) {off : Int} (hoff : off < 2 ^ 31)
    (name : CString) : ∃ r, fdtGetpropNamelen fdt off name = .ok r := by
  obtain ⟨first, hfirst, hfound⟩ := fdtFirstPropertyOffset_spec h hoff
  obtain ⟨r, hr, hin⟩ := propertyNamelen_spec h name (Nat.succ_pos fdt.mem.length)
    (fun n _ => rounds_start h n) (hfound.imp_right (by
      rintro ⟨m, next', nameoff, value, hm, hle, hp'⟩
      exact ⟨m, next', nameoff, value, hm, Int.natCast_nonneg m, hp'⟩))
  simp only [fdtGetpropNamelen, hfirst, hr, bind, Except.bind]
  cases r with
  | error err => exact ⟨_, rfl⟩
  | ok found =>
    obtain ⟨poffset, prop⟩ := found
    obtain ⟨len, hlen⟩ := hin poffset prop rfl
    obtain ⟨p, hp⟩ := propertyData_spec poffset _ hlen
    simp only [hp]
    exact ⟨_, rfl⟩

theorem subnodeLoop_spec (h : Framed fdt) (name : CString) {rounds : Nat} {off depth : Int}
    (hr : 0 ≤ off ∧ 0 ≤ depth → Rounds fdt off.toNat rounds) (hoff : off < 2 ^ 31) :
    ∃ r, subnodeLoop fdt name (rounds + 1) off depth = .ok r ∧ r < 2 ^ 31 := by
  induction rounds generalizing off depth with
  | zero =>
    have hout : ¬ (0 ≤ off ∧ 0 ≤ depth) := fun hin => absurd (hr hin).1 (by omega)
    exact ⟨_, if_neg hout, by split_ifs <;> first | decide | exact hoff⟩
  | succ rounds ih =>
    by_cases hin : 0 ≤ off ∧ 0 ≤ depth
    · obtain ⟨eq, heq⟩ : ∃ eq, (if depth = 1 then fdtNodenameEq fdt off name
          else pure false) = (.ok eq : Except FdtStop Bool) := by
        split_ifs
        · exact fdtNodenameEq_spec h hoff name
        · exact ⟨false, rfl⟩
      obtain ⟨found, depth', hrun, hmax, hnode⟩ := fdtNextNode_spec h hoff (some depth)
      rw [subnodeLoop, if_pos hin, heq]
      simp only [hrun, bind, Except.bind, pure, Except.pure]
      cases eq with
      | true => exact ⟨_, rfl, hoff⟩
      | false =>
        refine ih (fun hin' => ?_) hmax
        rcases hnode with hneg | ⟨n, next, name, rfl, hle, hp⟩ | ⟨d, hd, hneg⟩
        · omega
        · have htotal := (hr hin).2
          have hlt := hp.lt
          have hbound := hp.bound
          exact ⟨by omega, by omega⟩
        · rw [hd, Option.getD_some] at hin'
          omega
    · exact ⟨_, if_neg hin, by split_ifs <;> first | decide | exact hoff⟩

theorem fdtRoProbe_lt (h : Framed fdt) : fdtRoProbe fdt < 2 ^ 31 := by
  have hint := h.int
  simp only [intMax] at hint
  rcases fdtRoProbe_size fdt with hneg | htotal <;> omega

theorem fdtSubnodeOffsetNamelen_spec (h : Framed fdt) {off : Int} (hoff : off < 2 ^ 31)
    (name : CString) : ∃ r, fdtSubnodeOffsetNamelen fdt off name = .ok r ∧ r < 2 ^ 31 := by
  unfold fdtSubnodeOffsetNamelen
  split_ifs
  · exact ⟨_, rfl, fdtRoProbe_lt h⟩
  · exact subnodeLoop_spec h name (fun _ => rounds_start h _) hoff

theorem pathLoop_spec (h : Framed fdt) (names : List CString) {off : Int} (hoff : off < 2 ^ 31) :
    ∃ r, pathLoop fdt names off = .ok r ∧ r < 2 ^ 31 := by
  induction names generalizing off with
  | nil => exact ⟨_, rfl, hoff⟩
  | cons name names ih =>
    obtain ⟨r, hr, hmax⟩ := fdtSubnodeOffsetNamelen_spec h hoff name
    simp only [pathLoop, hr, bind, Except.bind]
    split_ifs
    · exact ⟨_, rfl, hmax⟩
    · exact ih hmax

theorem fdtAbsolutePath_spec (h : Framed fdt) (path : CString) :
    ∃ r, fdtAbsolutePath fdt path = .ok r ∧ r < 2 ^ 31 := by
  unfold fdtAbsolutePath
  split_ifs
  · exact ⟨_, rfl, fdtRoProbe_lt h⟩
  · exact pathLoop_spec h _ (by decide)

theorem fdtMemRsv_some (h : Framed fdt) {i p : Nat} (hi : 16 * i ≤ fdt.totalsize)
    (hp : fdtMemRsv fdt i = some p) :
    p = fdt.offMemRsvmap + i * 16 ∧ p + 16 ≤ fdt.totalsize ∨ fdt.totalsize < 16 := by
  have hoff := be32At_lt fdt.mem 16
  change fdt.offMemRsvmap < _ at hoff
  have hint := h.int
  simp only [intMax] at hint
  simp only [fdtMemRsv, Option.ite_none_left_eq_some, Option.some.injEq] at hp
  simp only [toUint] at hp
  omega

theorem memRsvLoop_spec (h : Framed fdt) (hmin : 16 ≤ fdt.totalsize) {rounds i : Nat}
    (hpos : 0 < rounds) (hr : fdt.totalsize < 16 * (i + rounds)) (hi : 16 * i ≤ fdt.totalsize) :
    ∃ r, memRsvLoop fdt rounds i = .ok r := by
  induction rounds generalizing i with
  | zero => exact absurd hpos (by omega)
  | succ rounds ih =>
    cases hptr : fdtMemRsv fdt i with
    | none => exact ⟨_, by rw [memRsvLoop, hptr]⟩
    | some p =>
      obtain ⟨rfl, hle⟩ := (fdtMemRsv_some h hi hptr).resolve_right (by omega)
      have hsize := h.size
      have hld : fdt.ld64 (fdt.offMemRsvmap + i * 16 + 8) =
          .ok (BigEndian.value (Span.slice fdt.mem (fdt.offMemRsvmap + i * 16 + 8) 8)) :=
        if_pos (by omega)
      simp only [memRsvLoop, hptr, hld, bind, Except.bind]
      split_ifs
      · exact ⟨_, rfl⟩
      · exact ih (by omega) (by omega) (by omega)

section
variable {off next : Int} {rounds depth : Nat} {expectEnd : Bool}

theorem checkFullLoop_error {tag : Nat} (htag : fdtNextTag fdt off = .ok (tag, next))
    (hneg : next < 0) : checkFullLoop fdt (rounds + 1) off depth expectEnd = .ok next := by
  simp only [checkFullLoop, htag, bind, Except.bind]
  exact if_pos hneg

theorem checkFullLoop_finish (htag : fdtNextTag fdt off = .ok (fdtEndTag, next))
    (hnext : 0 ≤ next) : checkFullLoop fdt (rounds + 1) off depth expectEnd =
      .ok (if depth ≠ 0 then -fdtErrBadstructure else 0) := by
  simp only [checkFullLoop, htag, bind, Except.bind, pure, Except.pure]
  rw [if_neg (by omega), if_neg (fun h => h.2 rfl), if_neg (by decide), if_pos trivial]

theorem checkFullLoop_closed {tag : Nat} (hne : tag ≠ fdtEndTag)
    (htag : fdtNextTag fdt off = .ok (tag, next)) (hnext : 0 ≤ next) :
    checkFullLoop fdt (rounds + 1) off depth true = .ok (-fdtErrBadstructure) := by
  simp only [checkFullLoop, htag, bind, Except.bind, pure, Except.pure]
  rw [if_neg (by omega), if_pos ⟨trivial, hne⟩]

theorem checkFullLoop_nop (htag : fdtNextTag fdt off = .ok (fdtNopTag, next)) (hnext : 0 ≤ next) :
    checkFullLoop fdt (rounds + 1) off depth false =
      checkFullLoop fdt rounds next depth false := by
  simp only [checkFullLoop, htag, bind, Except.bind]
  rw [if_neg (by omega), if_neg (fun h => Bool.false_ne_true h.1), if_pos trivial]

theorem checkFullLoop_begin (htag : fdtNextTag fdt off = .ok (fdtBeginNodeTag, next))
    (hnext : 0 ≤ next) : checkFullLoop fdt (rounds + 1) off depth false =
      if intMax < depth + 1 then .ok (-fdtErrBadstructure)
      else if depth = 0 then
        match fdtGetName fdt off with
        | .error stop => .error stop
        | .ok (.error len) => .ok len
        | .ok (.ok name) =>
          if name ≠ [] then .ok (-fdtErrBadstructure) else checkFullLoop fdt rounds next 1 false
      else checkFullLoop fdt rounds next (depth + 1) false := by
  simp only [checkFullLoop, htag, bind, Except.bind, pure, Except.pure]
  rw [if_neg (by omega), if_neg (fun h => Bool.false_ne_true h.1), if_neg (by decide),
    if_neg (by decide), if_pos trivial]
  by_cases hmax : intMax < depth + 1
  · rw [if_pos hmax, if_pos hmax]
  · rw [if_neg hmax, if_neg hmax]
    by_cases hdepth : depth = 0
    · subst hdepth
      rw [if_pos rfl, if_pos rfl]
      cases fdtGetName fdt off with
      | error stop => rfl
      | ok r => cases r <;> rfl
    · rw [if_neg (by omega), if_neg hdepth]

theorem checkFullLoop_end (htag : fdtNextTag fdt off = .ok (fdtEndNodeTag, next))
    (hnext : 0 ≤ next) : checkFullLoop fdt (rounds + 1) off depth false =
      if depth = 0 then .ok (-fdtErrBadstructure)
      else checkFullLoop fdt rounds next (depth - 1) (if depth - 1 = 0 then true else false) := by
  simp only [checkFullLoop, htag, bind, Except.bind, pure, Except.pure]
  rw [if_neg (by omega), if_neg (fun h => Bool.false_ne_true h.1), if_neg (by decide),
    if_neg (by decide), if_neg (by decide), if_pos trivial]

theorem checkFullLoop_prop (htag : fdtNextTag fdt off = .ok (fdtPropTag, next))
    (hnext : 0 ≤ next) : checkFullLoop fdt (rounds + 1) off depth false =
      match fdtGetpropByOffset fdt off with
      | .error stop => .error stop
      | .ok (.error err) => .ok err
      | .ok (.ok _) => checkFullLoop fdt rounds next depth false := by
  simp only [checkFullLoop, htag, bind, Except.bind, pure, Except.pure]
  rw [if_neg (by omega), if_neg (fun h => Bool.false_ne_true h.1), if_neg (by decide),
    if_neg (by decide), if_neg (by decide), if_neg (by decide), if_pos trivial]
  cases fdtGetpropByOffset fdt off with
  | error stop => rfl
  | ok r => cases r <;> rfl

end

theorem checkFullLoop_spec (h : Framed fdt) {rounds off : Nat} (hr : Rounds fdt off rounds)
    (hoff : off < 2 ^ 31) (depth : Nat) (expectEnd : Bool) :
    ∃ r, checkFullLoop fdt rounds off depth expectEnd = .ok r := by
  induction rounds generalizing off depth expectEnd with
  | zero => exact absurd hr.1 (by omega)
  | succ rounds ih =>
    rcases fdtNextTag_spec h hoff with ⟨piece, next, hp⟩ | ⟨err, herr, hneg⟩
    · have hlt := hp.lt
      have hnext : (0 : Int) ≤ next := Int.natCast_nonneg next
      have hrest := fun depth expectEnd =>
        ih (hr.next hp (by omega)) (hp.lt_max h).2 depth expectEnd
      by_cases hfinish : piece.tag = fdtEndTag
      · exact ⟨_, checkFullLoop_finish (hfinish ▸ hp.tag) hnext⟩
      cases expectEnd with
      | true => exact ⟨_, checkFullLoop_closed hfinish hp.tag hnext⟩
      | false =>
        cases piece with
        | beginNode name =>
          rw [checkFullLoop_begin hp.tag hnext]
          obtain ⟨r, hr⟩ := fdtGetName_spec h (show (off : Int) < 2 ^ 31 by omega)
          rw [hr]
          cases r with
          | error len => split_ifs <;> first | exact ⟨_, rfl⟩ | exact hrest _ _
          | ok name => dsimp only; split_ifs <;> first | exact ⟨_, rfl⟩ | exact hrest _ _
        | endNode =>
          rw [checkFullLoop_end hp.tag hnext]
          split_ifs <;> first | exact ⟨_, rfl⟩ | exact hrest _ _
        | nop =>
          rw [checkFullLoop_nop hp.tag hnext]
          exact hrest _ _
        | prop nameoff value =>
          rw [checkFullLoop_prop hp.tag hnext]
          obtain ⟨r, hr⟩ := fdtGetpropByOffset_spec h (show (off : Int) < 2 ^ 31 by omega)
          rw [hr]
          cases r with
          | error err => exact ⟨_, rfl⟩
          | ok found => exact hrest _ _
        | finish => exact absurd rfl hfinish
    · have hneg' : -err < 0 := by rcases hneg with rfl | rfl <;> decide
      exact ⟨_, checkFullLoop_error herr hneg'⟩

theorem fdtCheckFull_spec {bufsize : Nat} (hbuf : bufsize ≤ fdt.mem.length) :
    ∃ r, fdtCheckFull fdt bufsize = .ok r := by
  unfold fdtCheckFull
  split_ifs with h1 h2 h3 h4
  · exact ⟨_, rfl⟩
  · exact ⟨_, rfl⟩
  · exact ⟨_, rfl⟩
  · exact ⟨_, rfl⟩
  · have hchecked := (fdtCheckHeader_iff fdt).mp (not_not.mp h3)
    have h := hchecked.framed (by omega)
    have hmin := Nat.le_trans (fdtHeaderSize_ge _) hchecked.size
    simp only [fdtV1Size] at hmin
    have hsize := h.size
    obtain ⟨r, hr⟩ := memRsvLoop_spec h (by omega) (Nat.succ_pos fdt.mem.length) (by omega)
      (show 16 * 0 ≤ _ from Nat.zero_le _)
    simp only [fdtNumMemRsv, hr, bind, Except.bind]
    split_ifs
    · exact ⟨_, rfl⟩
    · exact checkFullLoop_spec h (rounds_start h 0) (by decide) 0 false

def Returns {α : Type} (x : Except FdtStop α) : Prop := ∃ a, x = .ok a

/-- Every reader returns for every offset that fits in an `int`. The tree may be all of the buffer,
so that no byte outside of it is read. -/
structure ReadersReturn (fdt : FdtBuf) : Prop where
  nextTag : ∀ off : Int, off < 2 ^ 31 → Returns (fdtNextTag fdt off)
  nextNode : ∀ off : Int, off < 2 ^ 31 → ∀ depth, Returns (fdtNextNode fdt off depth)
  firstSubnode : ∀ off : Int, off < 2 ^ 31 → Returns (fdtFirstSubnode fdt off)
  nextSubnode : ∀ off : Int, off < 2 ^ 31 → Returns (fdtNextSubnode fdt off)
  getName : ∀ off : Int, off < 2 ^ 31 → Returns (fdtGetName fdt off)
  getString : ∀ stroffset, Returns (fdtGetString fdt stroffset)
  firstProperty : ∀ off : Int, off < 2 ^ 31 → Returns (fdtFirstPropertyOffset fdt off)
  nextProperty : ∀ off : Int, off < 2 ^ 31 → Returns (fdtNextPropertyOffset fdt off)
  getProperty : ∀ off : Int, off < 2 ^ 31 → Returns (fdtGetPropertyByOffset fdt off)
  getprop : ∀ off : Int, off < 2 ^ 31 → ∀ name, Returns (fdtGetpropNamelen fdt off name)
  absolutePath : ∀ path, xenstoreIsAbsPath path = true → Returns (fdtPathOffset fdt path)
  checkFull : ∀ bufsize, bufsize ≤ fdt.mem.length → Returns (fdtCheckFull fdt bufsize)

/-- The words of a tree whose only property claims more bytes than there are. -/
def overlongWords : List Nat :=
  [fdtMagicValue, 64, 48, 60, 40, 17, 16, 0, 4, 12, 0, 0, fdtPropTag, 0x7ffffff0, 0, 0]

def overlongTree : FdtBuf := ⟨0, BigEndian.table 4 overlongWords, by decide⟩

end Xenlib.Libfdt
