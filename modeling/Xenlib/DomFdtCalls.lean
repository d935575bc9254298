import Xenlib.Decimal
import Xenlib.DomFdtContent
import Xenlib.FdtStages

/-!
What the functions that create the nodes put into the tree. Each stops at the first call for which
there is no room.
-/

set_option autoImplicit false

namespace Xenlib.DomFdt

open Libfdt
open GuestRam (memSize setCell setRange rootAddressCells rootSizeCells ramBanks bankRanges)

/-- The call leads from one stage to the other, where it returns this code, if there is so much
room. Where there may be long names, one of them can be too long for less room. -/
def Takes (long : Prop) (call : FdtCall) (stage stage' : Stage) (code : Int) (cost : Nat) : Prop :=
  ∀ ⦃fdt : FdtBuf⦄ ⦃free : Nat⦄, Shows fdt free stage →
    (call fdt = .error .wild ∧ long ∧ free < cost) ∨
    ∃ r fdt', call fdt = .ok (r, fdt') ∧ fdt'.addr = fdt.addr ∧
      fdt'.mem.length = fdt.mem.length ∧
      ((r = code ∧ ∃ free', Shows fdt' free' stage' ∧ free ≤ free' + cost) ∨
        (r = -fdtErrNospace ∧ free < cost))

def totalCost (tags : List FdtTag) : Nat := (tags.map FdtTag.cost).sum

/-- The call puts these tags into the tree and returns this code. -/
def Puts (long : Prop) (call : FdtCall) (tags : List FdtTag) (code : Int) : Prop :=
  ∀ es done, Takes long call (.building es done) (.building es (done ++ tags)) code (totalCost tags)

section
variable {long : Prop} {call : FdtCall} {calls : List FdtCall} {stage stage' stage'' : Stage}
  {code : Int} {k m : Nat} {tags more : List FdtTag}

theorem Takes.writerCall {c : WriterCall} (hnext : stage.next c = some stage') (hsmall : c.Small)
    (hlong : ∀ tag, c = .put tag → 64 < tag.nameSize → long) :
    Takes long c.call stage stage' 0 c.cost := by
  intro fdt free h
  rcases h.call hsmall with ⟨hrun, hfull, es, tags, tag, -, rfl, hover⟩ |
    ⟨r, fdt', hrun, hout, haddr, hlen⟩
  · exact Or.inl ⟨hrun, hlong tag rfl hover.name, hfull⟩
  refine Or.inr ⟨r, fdt', hrun, haddr, hlen, ?_⟩
  rcases hout with ⟨hnone, -⟩ | ⟨stage₁, hsome, hcode⟩
  · rw [hnext] at hnone
    cases hnone
  · obtain rfl : stage' = stage₁ := Option.some.inj (hnext.symm.trans hsome)
    rcases hcode with hdone | ⟨hr, hfull, -⟩
    · exact Or.inl hdone
    · exact Or.inr ⟨hr, hfull⟩

theorem Takes.cons (h : Takes long call stage stage' 0 k)
    (hs : Takes long (inOrder calls) stage' stage'' code m) :
    Takes long (inOrder (call :: calls)) stage stage'' code (k + m) := by
  intro fdt free hshows
  rcases h hshows with ⟨hrun, hlong, hfull⟩ | ⟨r, fdt₁, hrun, haddr, hlen, hcode⟩
  · exact Or.inl ⟨by simp only [inOrder, hrun, bind, Except.bind], hlong, by omega⟩
  simp only [inOrder, hrun, bind, Except.bind]
  rcases hcode with ⟨rfl, free₁, hshows₁, hcost⟩ | ⟨rfl, hfull⟩
  · rw [if_neg (not_not.mpr rfl)]
    rcases hs hshows₁ with ⟨hrun', hlong, hfull⟩ | ⟨r', fdt', hrun', haddr', hlen', hcode'⟩
    · exact Or.inl ⟨hrun', hlong, by omega⟩
    refine Or.inr ⟨r', fdt', hrun', haddr'.trans haddr, hlen'.trans hlen, ?_⟩
    rcases hcode' with ⟨hr, free', hshows', hcost'⟩ | ⟨hr, hfull⟩
    · exact Or.inl ⟨hr, free', hshows', by omega⟩
    · exact Or.inr ⟨hr, by omega⟩
  · rw [if_pos (by decide)]
    exact Or.inr ⟨_, fdt₁, rfl, haddr, hlen, Or.inr ⟨rfl, by omega⟩⟩

theorem Takes.stop (h : Takes long call stage stage' code k) (hcode : code ≠ 0)
    (calls : List FdtCall) : Takes long (inOrder (call :: calls)) stage stage' code k := by
  intro fdt free hshows
  rcases h hshows with ⟨hrun, hlong, hfull⟩ | ⟨r, fdt', hrun, haddr, hlen, hr⟩
  · exact Or.inl ⟨by simp only [inOrder, hrun, bind, Except.bind], hlong, hfull⟩
  have hne : r ≠ 0 := by
    rcases hr with ⟨rfl, -⟩ | ⟨rfl, -⟩
    · exact hcode
    · decide
  simp only [inOrder, hrun, bind, Except.bind]
  rw [if_pos hne]
  exact Or.inr ⟨r, fdt', rfl, haddr, hlen, hr⟩

theorem totalCost_append (tags more : List FdtTag) :
    totalCost (tags ++ more) = totalCost tags + totalCost more := by
  simp [totalCost]

theorem Puts.give (code : Int) : Puts long (give code) [] code := by
  intro es done fdt free h
  rw [List.append_nil]
  exact Or.inr ⟨code, fdt, rfl, rfl, rfl, Or.inl ⟨rfl, free, h, Nat.le_add_right _ _⟩⟩

theorem Puts.tag {tag : FdtTag} (hsmall : tag.Small) (hlong : 64 < tag.nameSize → long) :
    Puts long tag.call [tag] 0 := fun _ _ =>
  @Takes.writerCall long _ _ (.put tag) rfl hsmall fun _ hput hname => by
    cases hput
    exact hlong hname

theorem Puts.beginNode {name : CString} (hname : name.length < 2 ^ 31 - 1) :
    Puts long (fdtBeginNode name) [.beginNode name] 0 :=
  @Puts.tag long (.beginNode name) hname (fun hlong => absurd hlong (Nat.not_lt_zero 64))

theorem Puts.property {name : CString} {value : Bytes} (hname : name.length < 64)
    (hvalue : value.length < 2 ^ 31) :
    Puts long (fdtProperty name value) [.property name value] 0 :=
  @Puts.tag long (.property name value) ⟨Nat.lt_trans hname (by decide), hvalue⟩
    (fun hlong => absurd hlong (Nat.not_lt.mpr hname))

theorem Puts.endNode : Puts long fdtEndNode [.endNode] 0 :=
  @Puts.tag long .endNode trivial (fun hlong => absurd hlong (Nat.not_lt_zero 64))

theorem Puts.of_eq (h : Puts long call tags code) (heq : tags = more) : Puts long call more code :=
  heq ▸ h

theorem Puts.nil : Puts long (inOrder []) [] 0 := Puts.give 0

theorem Puts.cons (h : Puts long call tags 0) (hs : Puts long (inOrder calls) more code) :
    Puts long (inOrder (call :: calls)) (tags ++ more) code := by
  intro es done
  rw [← List.append_assoc, totalCost_append]
  exact (h es done).cons (hs es (done ++ tags))

theorem Puts.stop (h : Puts long call tags code) (hcode : code ≠ 0) (calls : List FdtCall) :
    Puts long (inOrder (call :: calls)) tags code := fun es done => (h es done).stop hcode calls

theorem inOrder_cons (call : FdtCall) (calls : List FdtCall) (fdt : FdtBuf) :
    inOrder (call :: calls) fdt =
      (call fdt).bind fun res => if res.1 = 0 then inOrder calls res.2 else .ok res := by
  simp only [inOrder, bind]
  cases call fdt with
  | error stop => rfl
  | ok res =>
    by_cases hr : res.1 = 0
    · exact (if_neg (not_not.mpr hr)).trans (if_pos hr).symm
    · exact (if_pos hr).trans (if_neg hr).symm

theorem inOrder_singleton (call : FdtCall) (fdt : FdtBuf) : inOrder [call] fdt = call fdt := by
  rw [inOrder_cons]
  cases call fdt with
  | error stop => rfl
  | ok res =>
    obtain ⟨r, fdt'⟩ := res
    by_cases hr : r = 0
    · subst hr
      rfl
    · exact if_neg hr

theorem inOrder_append (calls calls' : List FdtCall) :
    inOrder (calls ++ calls') = inOrder [inOrder calls, inOrder calls'] := by
  funext fdt
  induction calls generalizing fdt with
  | nil =>
    rw [List.nil_append, inOrder_cons]
    exact (inOrder_singleton _ fdt).symm
  | cons call calls ih =>
    rw [List.cons_append, inOrder_cons, inOrder_cons, inOrder_cons]
    cases call fdt with
    | error stop => rfl
    | ok res =>
      by_cases hr : res.1 = 0
      · simp only [Except.bind, if_pos hr]
        rw [ih, inOrder_cons]
        rfl
      · simp only [Except.bind, if_neg hr]

theorem Puts.congr {call' : FdtCall} (h : Puts long call tags code)
    (heq : ∀ fdt, call' fdt = call fdt) : Puts long call' tags code := by
  obtain rfl : call' = call := funext heq
  exact h

theorem Puts.andThen {call' : FdtCall} (h : Puts long call tags 0)
    (hs : Puts long call' more code) : Puts long (inOrder [call, call']) (tags ++ more) code :=
  h.cons (hs.congr (inOrder_singleton call'))

theorem Puts.append {calls' : List FdtCall} (h : Puts long (inOrder calls) tags 0)
    (hs : Puts long (inOrder calls') more code) :
    Puts long (inOrder (calls ++ calls')) (tags ++ more) code := by
  rw [inOrder_append]
  exact h.andThen hs

theorem Puts.map {α : Type} {f : α → FdtCall} {tagsOf : α → List FdtTag} {as : List α}
    (h : ∀ a ∈ as, Puts long (f a) (tagsOf a) 0) :
    Puts long (inOrder (as.map f)) (as.flatMap tagsOf) 0 := by
  induction as with
  | nil => exact Puts.nil
  | cons a as ih =>
    obtain ⟨ha, has⟩ := List.forall_mem_cons.mp h
    exact ha.cons (ih has)

theorem zsnprintf_eq {text : CString} (hne : text ≠ []) (hlen : text.length < fdtStringMax)
    (call : CString → FdtCall) : zsnprintf text call = call text := by
  rw [zsnprintf, if_neg (mt List.length_eq_zero_iff.mp hne), List.take_of_length_le (by omega)]

theorem versioned_length {text : CString} {n : Nat} (h : text.length = n) (major minor : UInt32) :
    (versioned text major minor).length ≤ n + 23 := by
  have hmajor := decimalInt_length_le major
  have hminor := decimalInt_length_le minor
  have hdot : (cstr ".").length = 1 := by decide
  simp only [versioned, List.length_append, hdot, h]
  omega

theorem versioned_ne {text : CString} (h : text ≠ []) (major minor : UInt32) :
    versioned text major minor ≠ [] := by
  simp [versioned, h]

theorem hex_length_le {n k : Nat} (hk : 0 < k) (h : n < 16 ^ k) : (hex n).length ≤ k :=
  Nat.le_trans (List.length_filterMap_le _ _)
    ((Nat.length_toDigits_le_iff (by decide) hk).mpr h)

theorem getMpdir_lt (i : Nat) : getMpdir i < 16 ^ 4 := by
  have hlow : i &&& 0x0f < 2 ^ 16 := Nat.lt_of_le_of_lt Nat.and_le_right (by decide)
  have hmask : i >>> 4 &&& 0xff < 2 ^ 8 := Nat.lt_of_le_of_lt Nat.and_le_right (by decide)
  have hhigh : (i >>> 4 &&& 0xff) <<< 8 < 2 ^ 16 := by
    rw [Nat.shiftLeft_eq]
    omega
  exact Nat.or_lt_two_pow hlow hhigh

@[simp] theorem setCell_length (size val : Nat) : (setCell size val).length = size := by
  induction size generalizing val with
  | zero => rfl
  | succ size ih => simp [setCell, ih]

@[simp] theorem cells_length (values : List Nat) : (cells values).length = 4 * values.length :=
  BigEndian.table_length 4 values

theorem regs_length (addrCells sizeCells : Nat) (regs : List (Nat × Nat)) :
    (cells (regs.flatMap fun r => setRange addrCells sizeCells r.1 r.2)).length =
      4 * ((addrCells + sizeCells) * regs.length) := by
  rw [cells_length]
  induction regs with
  | nil => rfl
  | cons r regs ih =>
    have hrange : (setRange addrCells sizeCells r.1 r.2).length = addrCells + sizeCells := by
      simp [setRange]
    rw [List.flatMap_cons, List.length_append, hrange, List.length_cons, Nat.mul_succ]
    omega

theorem Puts.cell {name : CString} (hname : name.length < 64) (value : Nat) :
    Puts long (fdtPropertyCell name value) [.property name (cpuToFdt32 value)] 0 :=
  Puts.property hname (by rw [cpuToFdt32, BigEndian.bytes_length]; decide)

theorem Puts.regs {addrCells sizeCells : Nat} {regs : List (Nat × Nat)}
    (h : 4 * ((addrCells + sizeCells) * regs.length) < 2 ^ 31) :
    Puts long (fdtPropertyRegs addrCells sizeCells regs) [(regProp addrCells sizeCells regs).tag]
      0 :=
  Puts.property (by decide) (by rwa [regs_length])

theorem Puts.compat {compats : List CString}
    (h : (compats.flatMap strBytes).length ≤ fdtStringMax) :
    Puts long (fdtPropertyCompat compats) [(compatProp compats).tag] 0 := by
  rw [fdtPropertyCompat, if_neg (by omega)]
  exact Puts.property (by decide) (Nat.lt_of_le_of_lt h (by decide))

theorem Puts.compat_long {compats : List CString}
    (h : ¬ (compats.flatMap strBytes).length ≤ fdtStringMax) :
    Puts long (fdtPropertyCompat compats) [] Errno.enomem.rc := by
  rw [fdtPropertyCompat, if_pos (by omega)]
  exact Puts.give _

theorem Puts.interrupts {intr : List (List Nat)} (h : 4 * intr.flatten.length < 2 ^ 31) :
    Puts long (fdtPropertyInterrupts intr) ((interruptProps intr).map FdtProperty.tag) 0 :=
  (Puts.property (by decide) (by rwa [cells_length])).cons
    ((Puts.cell (by decide) guestGicPhandle).cons Puts.nil)

end

end Xenlib.DomFdt
