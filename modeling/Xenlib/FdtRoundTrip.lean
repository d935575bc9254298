import Xenlib.FdtStages
import Xenlib.FdtAccepted

/-!
What is written is read back. A tree is created, reservations and tags are added and the tree is
finished; then it passes the full check, and the readers find the reservations and the content.
-/

set_option autoImplicit false

namespace Xenlib.Libfdt

theorem setField_mem {fdt : FdtBuf} {words : List Nat} {rest : Bytes}
    (h : fdt.mem = BigEndian.table 4 words ++ rest) (hlen : words.length = 10)
    (i : Fin 10) (v : Nat) :
    (fdt.setField i v).mem = BigEndian.table 4 (words.set i v) ++ rest := by
  change Span.patch fdt.mem (4 * i) (cpuToFdt32 v) = _
  rw [h]
  exact BigEndian.patch_table (by rw [hlen]; exact i.isLt) v

theorem replicate_table (n : Nat) :
    List.replicate (4 * n) (0 : UInt8) = BigEndian.table 4 (List.replicate n 0) := by
  induction n with
  | zero => rfl
  | succ n ih =>
    rw [Nat.mul_succ, Nat.add_comm, List.replicate_add, ih, List.replicate_succ]
    rfl

theorem fdtCreateWithFlags_shows (addr : Nat) {buf : Bytes} (hsize : createHdrsize ≤ buf.length)
    (hint : buf.length < 2 ^ 31) {flags : Nat} (hflags : flags ≤ fdtCreateFlagNoNameDedup) :
    ∃ fdt, fdtCreateWithFlags addr buf flags = .ok fdt ∧
      Shows fdt (buf.length - createHdrsize) (.reserving []) ∧ fdt.addr = addr ∧
      fdt.mem.length = buf.length := by
  simp only [createHdrsize] at hsize
  obtain ⟨start, hstart⟩ : ∃ start : FdtBuf, start = ⟨addr, List.replicate buf.length 0, by
    rw [List.length_replicate]
    simp only [fdtV17Size, fdtV3Size, fdtV2Size, fdtV1Size]
    omega⟩ := ⟨_, rfl⟩
  have hmem : start.mem = BigEndian.table 4 (List.replicate 10 0) ++
      List.replicate (buf.length - 40) 0 := by
    rw [hstart, ← replicate_table, ← List.replicate_add]
    exact congrArg (List.replicate · 0) (by omega)
  -- the fields one after the other
  obtain ⟨fdt, hfdt⟩ : ∃ fdt, fdt = ((((start.setField 0 fdtSwMagic).setField 5
    fdtLastSupportedVersion).setField 6 flags).setField 1 buf.length).setField 4 createHdrsize :=
    ⟨_, rfl⟩
  have h₄ := setField_mem (setField_mem (setField_mem (setField_mem (setField_mem hmem
    rfl 0 fdtSwMagic) rfl 5 fdtLastSupportedVersion) rfl 6 flags) rfl 1 buf.length)
    rfl 4 createHdrsize
  rw [← hfdt] at h₄
  have hrsv : fdt.offMemRsvmap = createHdrsize := by
    rw [FdtBuf.offMemRsvmap, be32At_eq, h₄]
    exact (congrArg BigEndian.value (BigEndian.slice_table (i := 4) (by simp))).trans
      (BigEndian.value_bytes 4 createHdrsize)
  have h₆ := setField_mem (setField_mem h₄ rfl 2 fdt.offMemRsvmap) rfl 3 0
  have hrun : fdtCreateWithFlags addr buf flags =
      .ok ((fdt.setField 2 fdt.offMemRsvmap).setField 3 0) := by
    rw [fdtCreateWithFlags, dif_neg (by simp only [createHdrsize]; omega),
      if_neg (by simp only [fdtCreateFlagNoNameDedup] at hflags ⊢; omega)]
    subst hstart
    rw [hfdt]
    rfl
  rw [hrsv] at h₆ hrun
  have hlen : ((fdt.setField 2 createHdrsize).setField 3 0).mem.length = buf.length := by
    rw [h₆, List.length_append, BigEndian.table_length, List.length_replicate]
    simp only [List.length_set, List.length_replicate]
    omega
  have hrest : List.replicate (buf.length - 40) (0 : UInt8) =
      reserved [] ++ List.replicate (buf.length - 48) 0 := by
    rw [reserved, List.flatMap_nil, List.append_nil, ← List.replicate_add]
    exact congrArg (List.replicate · 0) (by omega)
  refine ⟨_, hrun, ⟨flags, List.replicate (buf.length - 48) 0, ⟨⟨?_, ?_⟩, by omega⟩, ?_⟩, ?_, hlen⟩
  · rw [hlen, h₆, hrest]
    rfl
  · rw [hlen]
    simp only [Header.words, List.mem_cons, List.not_mem_nil, or_false]
    simp only [fdtCreateFlagNoNameDedup] at hflags
    rintro w (rfl | rfl | rfl | rfl | rfl | rfl | rfl | rfl | rfl | rfl) <;>
      first | decide | omega
  · rw [List.length_replicate, createHdrsize]
  · rw [hfdt, hstart]
    rfl

section
variable {fdt : FdtBuf} {rsv block strs left : Bytes}

theorem checkBlock_of {hdrsize totalsize base size : Nat} (hbase : hdrsize ≤ base)
    (hend : base + size ≤ totalsize) (hmax : totalsize < 2 ^ 31) :
    checkBlock hdrsize totalsize base size = true := by
  have hsum : toUint ((base : Int) + size) = base + size := by
    simp only [toUint]
    omega
  simp only [checkBlock, checkOff, hsum, decide_eq_true_eq, Bool.decide_and, Bool.and_eq_true]
  omega

theorem Complete.checkHeader (h : Complete fdt rsv block strs left) (haddr : fdt.addr % 8 = 0) :
    fdtCheckHeader fdt = 0 := by
  have hint := h.int
  have hrsv := h.terminated
  have hversion := h.has.version
  have hsize : fdtHeaderSize fdt.version = 40 := by
    rw [hversion]
    rfl
  refine (fdtCheckHeader_iff fdt).mpr ⟨haddr, h.has.magic, ?_, ?_, ?_, ?_, ?_, ?_, ?_, ?_⟩
  · rw [hversion]
    decide
  · rw [h.has.lastCompVersion]
    exact (show fdtLastCompatibleVersion ≤ fdtLastSupportedVersion by decide)
  · rw [hversion, h.has.lastCompVersion]
    exact (show fdtLastCompatibleVersion ≤ fdtLastSupportedVersion by decide)
  · rw [hsize, h.has.totalsize]
    simp only [finalHeader]
    omega
  · rw [h.has.totalsize, intMax]
    simp only [finalHeader]
    omega
  · rw [hsize, h.has.totalsize, h.has.offMemRsvmap]
    simp only [finalHeader, createHdrsize]
    exact decide_eq_true ⟨by omega, by omega⟩
  · rw [hsize, checkStruct, hversion, if_neg (by decide), h.has.totalsize, h.has.offDtStruct,
      h.has.sizeDtStruct]
    simp only [finalHeader]
    exact checkBlock_of (by omega) (by omega) (by omega)
  · rw [hsize, h.has.totalsize, h.has.offDtStrings, h.has.sizeDtStrings]
    simp only [finalHeader]
    exact checkBlock_of (by omega) (by omega) (by omega)

theorem reserved_table (entries : List (Nat × Nat)) : reserved entries =
    List.replicate 8 0 ++ BigEndian.table 8 (entries.flatMap fun e => [e.1, e.2]) := by
  simp [reserved, BigEndian.table, List.flatMap_assoc, cpuToFdt64]

variable {entries : List (Nat × Nat)}

theorem Complete.memRsv (h : Complete fdt (reserved (entries ++ [(0, 0)])) block strs left)
    {i : Nat} (hi : i ≤ entries.length) : fdtMemRsv fdt i = some (48 + i * 16) := by
  have hint := h.int
  have hlen := reserved_length (entries ++ [(0, 0)])
  rw [List.length_append, List.length_singleton] at hlen
  have habs : toUint ((48 : Nat) + toUint ((i : Int) * 16)) = 48 + i * 16 := by
    simp only [toUint]
    omega
  simp only [fdtMemRsv, h.has.offMemRsvmap, h.has.totalsize, finalHeader, createHdrsize, habs]
  rw [if_neg (by omega), if_neg (by omega)]

theorem Complete.ld64 (h : Complete fdt (reserved entries) block strs left) {j : Nat}
    (hj : j < (entries.flatMap fun e => [e.1, e.2]).length) :
    fdt.ld64 (48 + 8 * j) = .ok ((entries.flatMap fun e => [e.1, e.2])[j] % 2 ^ 64) := by
  obtain ⟨front, hfront⟩ : ∃ front : Bytes, front =
      BigEndian.table 4 (finalHeader (reserved entries) block strs).words ++ List.replicate 8 0 :=
    ⟨_, rfl⟩
  have hmem : fdt.mem = front ++ (BigEndian.table 8 (entries.flatMap fun e => [e.1, e.2]) ++
      (block ++ (strs ++ left))) := by
    rw [h.has.mem, reserved_table]
    simp only [hfront, reserved_table, List.append_assoc]
  have hlen : front.length = 48 := by
    rw [hfront, List.length_append, BigEndian.table_length, List.length_replicate]
    rfl
  have hfit : 48 + 8 * j + 8 ≤ fdt.mem.length := by
    rw [hmem, List.length_append, List.length_append, hlen, BigEndian.table_length]
    omega
  rw [FdtBuf.ld64, if_pos hfit, hmem, Span.slice_right (by omega), hlen, Nat.add_sub_cancel_left,
    BigEndian.slice_table hj, BigEndian.value_bytes]
  rfl

theorem words_get (entries : List (Nat × Nat)) {i : Nat} (hi : i < entries.length) :
    (entries.flatMap fun e => [e.1, e.2])[2 * i]? = some entries[i].1 ∧
      (entries.flatMap fun e => [e.1, e.2])[2 * i + 1]? = some entries[i].2 := by
  induction entries generalizing i with
  | nil => exact absurd hi (Nat.not_lt_zero i)
  | cons e entries ih =>
    cases i with
    | zero => exact ⟨rfl, rfl⟩
    | succ i => simpa [Nat.mul_succ] using ih (Nat.lt_of_succ_lt_succ hi)

theorem Complete.ld64_entry (h : Complete fdt (reserved entries) block strs left) {i : Nat}
    (hi : i < entries.length) : fdt.ld64 (48 + i * 16) = .ok (entries[i].1 % 2 ^ 64) ∧
      fdt.ld64 (48 + i * 16 + 8) = .ok (entries[i].2 % 2 ^ 64) := by
  obtain ⟨haddr, hsize⟩ := words_get entries hi
  obtain ⟨hlt, haddr⟩ := List.getElem?_eq_some_iff.mp haddr
  obtain ⟨hlt', hsize⟩ := List.getElem?_eq_some_iff.mp hsize
  rw [show 48 + i * 16 = 48 + 8 * (2 * i) by omega,
    show 48 + 8 * (2 * i) + 8 = 48 + 8 * (2 * i + 1) by omega, h.ld64 hlt, h.ld64 hlt', haddr,
    hsize]
  exact ⟨rfl, rfl⟩

/-- An entry is counted when its size is not 0. -/
def Counted (e : Nat × Nat) : Bool := e.2 % 2 ^ 64 ≠ 0

theorem Complete.memRsvLoop (h : Complete fdt (reserved (entries ++ [(0, 0)])) block strs left)
    {rounds i : Nat} (hi : i ≤ entries.length) (hrounds : entries.length < i + rounds) :
    Libfdt.memRsvLoop fdt rounds i =
      .ok ((i + ((entries.drop i).takeWhile Counted).length : Nat) : Int) := by
  induction rounds generalizing i with
  | zero => omega
  | succ rounds ih =>
    have hlt : i < (entries ++ [(0, 0)]).length := by
      rw [List.length_append, List.length_singleton]
      omega
    simp only [Libfdt.memRsvLoop, h.memRsv hi, (h.ld64_entry hlt).2, bind, Except.bind, pure,
      Except.pure]
    rcases Nat.lt_or_eq_of_le hi with hlt' | rfl
    · rw [List.getElem_append_left hlt', List.drop_eq_getElem_cons hlt', List.takeWhile_cons]
      by_cases hzero : entries[i].2 % 2 ^ 64 = 0
      · rw [if_pos hzero, if_neg (by simpa [Counted] using hzero)]
        rfl
      · have hnext := ih (i := i + 1) hlt' (by omega)
        rw [if_neg hzero, if_pos (by simpa [Counted] using hzero), hnext, List.length_cons]
        exact congrArg (fun n : Nat => Except.ok (n : Int)) (by omega)
    · rw [List.getElem_append_right (Nat.le_refl _), List.drop_length]
      simp

theorem Complete.getMemRsv (h : Complete fdt (reserved (entries ++ [(0, 0)])) block strs left)
    (hread : Readable fdt) {i : Nat} (hi : i < entries.length) :
    fdtGetMemRsv fdt i = .ok (.ok (entries[i].1 % 2 ^ 64, entries[i].2 % 2 ^ 64)) := by
  have hprobe := hread.probe
  have hlt : i < (entries ++ [(0, 0)]).length := by
    rw [List.length_append]
    omega
  obtain ⟨haddr, hsize⟩ := h.ld64_entry hlt
  rw [List.getElem_append_left hi] at haddr hsize
  simp only [fdtGetMemRsv, h.memRsv (Nat.le_of_lt hi), haddr, hsize, bind, Except.bind]
  exact if_neg (by omega)

end

section
variable {fdt : FdtBuf} {free : Nat} {es : List (Nat × Nat)} {tags : List FdtTag}

theorem Shows.read (h : Shows fdt free (.complete es tags)) (haddr : fdt.addr % 8 = 0)
    (hmax : fdt.mem.length < intMax) : Readable fdt ∧ Walk fdt 0 tags ∧ fdtCheckHeader fdt = 0 ∧
      fdtNumMemRsv fdt = .ok (((es.takeWhile Counted).length : Nat) : Int) ∧
      (∀ i (hi : i < es.length),
        fdtGetMemRsv fdt i = .ok (.ok (es[i].1 % 2 ^ 64, es[i].2 % 2 ^ 64))) ∧
      ∀ name rest, tags = .beginNode name :: rest →
        ∃ next, PieceAt fdt 0 (.beginNode name) next := by
  obtain ⟨block, strs, left, pieces, hcomplete, hlaid, hfinal⟩ := h
  have hlen := hcomplete.has.length
  have hrsv := reserved_length (es ++ [(0, 0)])
  simp only [List.length_append, List.length_singleton] at hlen hrsv
  have hread := hcomplete.readable haddr (by omega)
  refine ⟨hread, hcomplete.walk hread hfinal (List.nil_append block).symm hlaid rfl,
    hcomplete.checkHeader haddr, ?_, fun i hi => hcomplete.getMemRsv hread hi, ?_⟩
  · have hloop : memRsvLoop fdt (fdt.mem.length + 1) 0 = _ :=
      hcomplete.memRsvLoop (Nat.zero_le _) (by omega)
    rw [Nat.zero_add, List.drop_zero] at hloop
    exact hloop
  · rintro name rest rfl
    cases hfinal with
    | cons hpiece _ =>
      cases hpiece
      cases hlaid with
      | cons hbs _ =>
        have hblock := hcomplete.blockIn
        rw [← List.nil_append (_ ++ _)] at hblock
        exact ⟨_, hblock.pieceAt hbs rfl⟩

structure Written (fdt : FdtBuf) (es : List (Nat × Nat)) (tags : List FdtTag) : Prop where
  walk : Walk fdt 0 tags
  numMemRsv : fdtNumMemRsv fdt = .ok (((es.takeWhile Counted).length : Nat) : Int)
  getMemRsv : ∀ i (hi : i < es.length),
    fdtGetMemRsv fdt i = .ok (.ok (es[i].1 % 2 ^ 64, es[i].2 % 2 ^ 64))

theorem Shows.written (h : Shows fdt free (.complete es tags)) (haddr : fdt.addr % 8 = 0)
    (hmax : fdt.mem.length < intMax) : Written fdt es tags := by
  obtain ⟨-, hwalk, -, hnum, hget, -⟩ := h.read haddr hmax
  exact ⟨hwalk, hnum, hget⟩

theorem Answers.all_done {stage last last' : Stage} {fdt fdt' : FdtBuf} {cs : List WriterCall}
    {rs : List Int} (h : Answers stage fdt cs rs last fdt') (hspace : -fdtErrNospace ∉ rs)
    (hnext : cs.foldlM Stage.next stage = some last') :
    rs = List.replicate cs.length 0 ∧ last = last' := by
  induction h with
  | nil stage fdt => exact ⟨rfl, Option.some.inj hnext⟩
  | refused hnone _ _ _ =>
    rw [List.foldlM_cons, hnone] at hnext
    cases hnext
  | full _ _ _ _ => exact absurd List.mem_cons_self hspace
  | done hsome _ _ ih =>
    rw [List.foldlM_cons, hsome] at hnext
    obtain ⟨rfl, rfl⟩ := ih (fun hin => hspace (List.mem_cons_of_mem _ hin)) hnext
    exact ⟨rfl, rfl⟩

end

def session (entries : List (Nat × Nat)) (content : FdtItems) : List WriterCall :=
  entries.map (fun e => .addReservemapEntry e.1 e.2) ++ (.finishReservemap ::
    ((FdtItems.node [] content .nil).tags.map .put ++ [.finish]))

theorem foldlM_reserve (entries es : List (Nat × Nat)) :
    (entries.map fun e => WriterCall.addReservemapEntry e.1 e.2).foldlM Stage.next (.reserving es) =
      some (.reserving (es ++ entries)) := by
  induction entries generalizing es with
  | nil => simp
  | cons e entries ih =>
    rw [List.map_cons, List.foldlM_cons, List.append_cons]
    exact ih _

theorem foldlM_put (es : List (Nat × Nat)) (tags more : List FdtTag) :
    (more.map WriterCall.put).foldlM Stage.next (.building es tags) =
      some (.building es (tags ++ more)) := by
  induction more generalizing tags with
  | nil => simp
  | cons tag more ih =>
    rw [List.map_cons, List.foldlM_cons, List.append_cons]
    exact ih _

theorem session_complete (entries : List (Nat × Nat)) (content : FdtItems) :
    (session entries content).foldlM Stage.next (.reserving []) =
      some (.complete entries (FdtItems.node [] content .nil).tags) := by
  rw [session, List.foldlM_append, foldlM_reserve, List.nil_append]
  change ((FdtItems.node [] content .nil).tags.map WriterCall.put ++ [WriterCall.finish]).foldlM
    Stage.next (.building entries []) = _
  rw [List.foldlM_append, foldlM_put, List.nil_append]
  rfl

/-- The calls return, unless they come to a name that is too long. There is room for them where the
buffer has so many bytes, and a tree that is complete in the end is read as it was written. -/
def Outcomes (stage : Stage) (fdt : FdtBuf) (cs : List WriterCall) (cost : Nat) : Prop :=
  (runCalls cs fdt = .error .wild ∧ Overruns stage fdt cs ∧ fdt.mem.length < cost) ∨
  ∃ rs fdt' last, runCalls cs fdt = .ok (rs, fdt') ∧ Answers stage fdt cs rs last fdt' ∧
    (-fdtErrNospace ∈ rs → fdt.mem.length < cost) ∧
    ∀ es tags, last = .complete es tags → Written fdt' es tags

theorem Shows.outcomes {fdt : FdtBuf} {free : Nat} {stage : Stage} (h : Shows fdt free stage)
    {cs : List WriterCall} (hsmall : ∀ c ∈ cs, c.Small) (haddr : fdt.addr % 8 = 0)
    (hmax : fdt.mem.length < intMax) {cost : Nat}
    (hcost : fdt.mem.length + (cs.map WriterCall.cost).sum ≤ free + cost) :
    Outcomes stage fdt cs cost := by
  rcases runCalls_spec hsmall h with ⟨hrun, hover, hfull⟩ |
    ⟨rs, fdt', last, free', hrun, hans, hlast, haddr', hlen', hspace, -⟩
  · exact Or.inl ⟨hrun, hover, by omega⟩
  · refine Or.inr ⟨rs, fdt', last, hrun, hans, fun hin => ?_, fun es tags heq => ?_⟩
    · have hroom := hspace hin
      omega
    · subst heq
      exact hlast.written (by rw [haddr', haddr]) (by rw [hlen']; exact hmax)

theorem Readable.checkFull {fdt : FdtBuf} (h : Readable fdt) {bufsize : Nat}
    (hrooted : Rooted fdt bufsize) {n : Nat} (hnum : fdtNumMemRsv fdt = .ok (n : Int))
    {content : FdtItems} {next : Nat}
    (hp : PieceAt fdt 0 (.beginNode []) next)
    (hw : Walk fdt 0 (FdtItems.node [] content .nil).tags) : fdtCheckFull fdt bufsize = .ok 0 := by
  have hloop := (checkFullLoop_root h.framed h.version hp).mpr ⟨h, content, hw⟩
  simp only [hrooted.checkFull, hnum, Except.bind]
  rw [if_neg (Int.not_lt.mpr (Int.natCast_nonneg n))]
  exact hloop

theorem Shows.accepted {fdt : FdtBuf} {free : Nat} {es : List (Nat × Nat)} {content : FdtItems}
    (h : Shows fdt free (.complete es (FdtItems.node [] content .nil).tags))
    (haddr : fdt.addr % 8 = 0) (hmax : fdt.mem.length < intMax) :
    fdtCheckFull fdt fdt.mem.length = .ok 0 ∧ Enumerated fdt content := by
  obtain ⟨hread, hwalk, hheader, hnum, -, hfirst⟩ := h.read haddr hmax
  obtain ⟨next, hp⟩ := hfirst [] _ rfl
  have hcheck : fdtCheckNodeOffset fdt (0 : Nat) = .ok (next : Int) := hp.check rfl
  have hrooted : Rooted fdt fdt.mem.length := by
    refine ⟨hheader, hread.framed.size, Nat.le_refl _, hread.version, ?_⟩
    change 0 ≤ resultOr _ (fdtCheckNodeOffset fdt (0 : Nat))
    rw [hcheck]
    exact Int.natCast_nonneg next
  exact ⟨hread.checkFull hrooted hnum hp hwalk, hread.enumerated hp hwalk⟩

/-- A call too early, a property outside of any node, a node that is too large, and a property with
a name that is longer than the buffer. -/
def oddCalls : List WriterCall :=
  [.put .endNode, .addReservemapEntry 0x40000000 0x1000, .finishReservemap,
    .put (.property (cstr "reg") [1]), .put (.beginNode (List.replicate 200 slash)),
    .put (.property (List.replicate 200 slash) [1]), .finish, .finish]

/-- Two properties of one name and a node. -/
def smallContent : FdtItems :=
  .property ⟨cstr "reg", [0, 0, 0, 7]⟩ (.node (cstr "cpu@0")
    (.property ⟨cstr "reg", [1]⟩ .nil) .nil)

end Xenlib.Libfdt
