import Xenlib.CString
import Xenlib.Lib.Machine
import Xenlib.Lib.Stream

/-!
The console page shared with a guest (`io/console.h`) and the characters typed into it
(`write_to_ext_ring`). The arrays lie one behind the other in the page, so that an index
past the end of `in` is an index into `out`.
-/

set_option autoImplicit false

namespace Xenlib

open Cyclic

/-- Sizes of `in` and of `out`. -/
def xenconsInSize : Nat := 1024

def xenconsOutSize : Nat := 2048

structure XenconsInterface where
  page : Nat → UInt8
  inCons : UInt32
  inProd : UInt32
  outCons : UInt32
  outProd : UInt32

def XenconsInterface.out (intf : XenconsInterface) (k : Nat) : UInt8 :=
  intf.page (xenconsInSize + k)

def maskXenconsIdx (idx : UInt32) (size : Nat) : Nat := idx.toNat &&& (size - 1)

/-- The copy loop. It masks with the size of `out`. -/
def writeToExtRingLoop (page : Nat → UInt8) (prod : UInt32) : Bytes → (Nat → UInt8) × UInt32
  | [] => (page, prod)
  | ch :: data =>
    writeToExtRingLoop (Function.update page (maskXenconsIdx prod xenconsOutSize) ch) (prod + 1)
      data

def writeToExtRingLen (cons prod : UInt32) (len : Nat) : Nat :=
  let freeSpace := xenconsInSize - (prod - cons).toNat
  if freeSpace < len then freeSpace else len

def writeToExtRing (intf : XenconsInterface) (data : Bytes) : XenconsInterface :=
  if 1024 < intf.inProd - intf.inCons then { intf with inProd := intf.inCons }
  else
    let len := writeToExtRingLen intf.inCons intf.inProd data.length
    let (page, prod) := writeToExtRingLoop intf.page intf.inProd (data.take len)
    { intf with page := page, inProd := prod }

/-- A call reads the indexes, copies, and stores the new index. -/
inductive ExtWriter where
  | idle
  | loaded (prod : UInt32) (data : Bytes)
  | copied (prod : UInt32) (data : Bytes)
  deriving DecidableEq

/-- The guest takes one character at a time and may run in between the steps of a call. -/
structure ConsoleRun where
  intf : XenconsInterface
  writer : ExtWriter
  guest : Reader UInt8
  accepted : Bytes
  read : Bytes

def ConsoleRun.start (intf : XenconsInterface) : ConsoleRun := ⟨intf, .idle, .idle, [], []⟩

inductive ConsoleAction where
  | writeLoad (data : Bytes)
  | writeCopy
  | writeEnd
  | guestCheck
  | guestRead
  | guestNext
  deriving DecidableEq

def ConsoleRun.step (s : ConsoleRun) (action : ConsoleAction) : Option ConsoleRun :=
  match action, s.writer, s.guest with
  | .writeLoad data, .idle, _ =>
    if 1024 < s.intf.inProd - s.intf.inCons then
      some { s with intf := { s.intf with inProd := s.intf.inCons } }
    else
      let len := writeToExtRingLen s.intf.inCons s.intf.inProd data.length
      some { s with writer := .loaded s.intf.inProd (data.take len) }
  | .writeCopy, .loaded prod data, _ =>
    let (page, prod) := writeToExtRingLoop s.intf.page prod data
    some { s with intf := { s.intf with page := page }, writer := .copied prod data }
  | .writeEnd, .copied prod data, _ =>
    some { s with intf := { s.intf with inProd := prod }, writer := .idle,
                  accepted := s.accepted ++ data }
  | .guestCheck, _, .idle =>
    if s.intf.inCons = s.intf.inProd then some s
    else some { s with guest := .loaded (s.intf.inCons.toNat % xenconsInSize) 1 }
  | .guestRead, _, .loaded off n => some { s with guest := .copied (slice s.intf.page off n) }
  | .guestNext, _, .copied data =>
    some { s with intf := { s.intf with inCons := s.intf.inCons + UInt32.ofNat data.length },
                  guest := .idle, read := s.read ++ data }
  | _, _, _ => none

theorem writeToExtRing_parts (intf : XenconsInterface) (data : Bytes)
    (h : ¬ 1024 < intf.inProd - intf.inCons) :
    (Machine.run ConsoleRun.step (ConsoleRun.start intf)
        [.writeLoad data, .writeCopy, .writeEnd]).map ConsoleRun.intf =
      some (writeToExtRing intf data) := by
  simp [Machine.run, ConsoleRun.step, ConsoleRun.start, writeToExtRing, h]

theorem maskXenconsIdx_out (idx : UInt32) :
    maskXenconsIdx idx xenconsOutSize = idx.toNat % xenconsOutSize :=
  Nat.and_two_pow_sub_one_eq_mod idx.toNat 11

theorem xenconsInSize_dvd : xenconsInSize ∣ 2 ^ 32 ∧ xenconsInSize < 2 ^ 32 := by decide

/-- The character at this position goes into `in`. -/
def positionInRange (prod : UInt32) (k : Nat) : Prop :=
  (prod.toNat + k) % xenconsOutSize < xenconsInSize

instance (prod : UInt32) (k : Nat) : Decidable (positionInRange prod k) :=
  inferInstanceAs (Decidable (_ < _))

theorem positionInRange_succ {prod : UInt32} {k : Nat} (h : positionInRange prod (k + 1)) :
    positionInRange (prod + 1) k := by
  have hp := prod.toNat_lt
  unfold positionInRange xenconsOutSize at *
  rw [UInt32.toNat_add, UInt32.toNat_one]
  have : (prod.toNat + 1) % 2 ^ 32 % 2048 = (prod.toNat + 1) % 2048 := by omega
  omega

theorem positionInRange_cell {prod : UInt32} (h : positionInRange prod 0) :
    prod.toNat % xenconsOutSize = prod.toNat % xenconsInSize := by
  unfold positionInRange xenconsOutSize xenconsInSize at *
  omega

theorem writeToExtRingLoop_prod (page : Nat → UInt8) (prod : UInt32) (data : Bytes) :
    (writeToExtRingLoop page prod data).2 = prod + UInt32.ofNat data.length := by
  induction data generalizing page prod with
  | nil => simp [writeToExtRingLoop]
  | cons ch data ih =>
    rw [writeToExtRingLoop, ih, List.length_cons, UInt32.ofNat_add, UInt32.add_assoc,
      UInt32.add_comm 1]
    rfl

theorem writeToExtRingLoop_page {page : Nat → UInt8} {prod : UInt32} {data : Bytes}
    (h : ∀ k < data.length, positionInRange prod k) :
    (writeToExtRingLoop page prod data).1 = scatter xenconsInSize page prod.toNat data := by
  induction data generalizing page prod with
  | nil => rfl
  | cons ch data ih =>
    have hcell := positionInRange_cell (h 0 (by simp))
    have hnext : (prod + 1).toNat % xenconsInSize = (prod.toNat + 1) % xenconsInSize := by
      have hp := prod.toNat_lt
      unfold xenconsInSize
      rw [UInt32.toNat_add, UInt32.toNat_one]
      omega
    rw [writeToExtRingLoop, ih fun k hk => positionInRange_succ (h (k + 1) (by simpa using hk)),
      scatter, blit_singleton, maskXenconsIdx_out, hcell, scatter_congr hnext]

theorem writeToExtRingLen_le (cons prod : UInt32) (len : Nat) :
    writeToExtRingLen cons prod len ≤ len ∧
      writeToExtRingLen cons prod len ≤ xenconsInSize - (prod - cons).toNat := by
  unfold writeToExtRingLen
  dsimp only
  split <;> omega

def ExtWriter.toWriter : ExtWriter → Writer UInt8
  | .idle => .idle
  | .loaded prod data => .loaded (prod.toNat % xenconsInSize) data
  | .copied _ data => .copied data

def ExtWriter.Agrees (inProd : UInt32) : ExtWriter → Prop
  | .idle => True
  | .loaded prod data => prod = inProd ∧ ∀ k < data.length, positionInRange prod k
  | .copied prod data => prod = inProd + UInt32.ofNat data.length

structure ConsoleRun.Delivers (out : Nat → UInt8) (s : ConsoleRun) : Prop where
  stream : Stream xenconsInSize s.intf.page s.intf.inCons s.intf.inProd s.writer.toWriter s.guest
    s.accepted s.read
  agrees : s.writer.Agrees s.intf.inProd
  single : ∀ off n, s.guest = .loaded off n → n = 1
  untouched : ∀ k, s.intf.out k = out k

/-- The characters the call takes all have positions in range. -/
def ConsoleRun.TakesInRange (s : ConsoleRun) : ConsoleAction → Prop
  | .writeLoad data =>
    ∀ k < writeToExtRingLen s.intf.inCons s.intf.inProd data.length,
      positionInRange s.intf.inProd k
  | _ => True

instance (s : ConsoleRun) (action : ConsoleAction) : Decidable (s.TakesInRange action) :=
  match action with
  | .writeLoad data =>
    inferInstanceAs (Decidable (∀ k < writeToExtRingLen s.intf.inCons s.intf.inProd data.length,
      positionInRange s.intf.inProd k))
  | .writeCopy | .writeEnd | .guestCheck | .guestRead | .guestNext =>
    inferInstanceAs (Decidable True)

theorem ConsoleRun.Delivers.step {out : Nat → UInt8} {s s' : ConsoleRun} {action : ConsoleAction}
    (h : s.Delivers out) (hrange : s.TakesInRange action) (hstep : s.step action = some s') :
    s'.Delivers out := by
  have hstream := h.stream
  have hagrees := h.agrees
  simp only [ConsoleRun.step] at hstep
  split at hstep
  case h_1 data hw =>
    have hbound := hstream.bound
    have hcheck : ¬ 1024 < s.intf.inProd - s.intf.inCons := by
      rw [UInt32.lt_iff_toNat_lt]
      exact Nat.not_lt.mpr hbound
    rw [if_neg hcheck] at hstep
    cases hstep
    obtain ⟨hlen, hfree⟩ := writeToExtRingLen_le s.intf.inCons s.intf.inProd data.length
    have htake := List.length_take_of_le hlen
    refine ⟨hstream.loadWrite (by omega), ⟨rfl, ?_⟩, h.single, h.untouched⟩
    rw [htake]
    exact hrange
  case h_2 prod data hw =>
    cases hstep
    rw [hw] at hstream hagrees
    obtain ⟨rfl, hin⟩ := hagrees
    have hcell := distance_cell xenconsInSize_dvd.1 s.intf.inCons s.intf.inProd
    refine ⟨hstream.copyIn ?_, writeToExtRingLoop_prod _ _ _, h.single, fun k => ?_⟩
    · rw [writeToExtRingLoop_page hin, ← scatter_congr hcell, content_scatter hstream.writer.2]
    · rw [← h.untouched k]
      simp only [XenconsInterface.out]
      rw [writeToExtRingLoop_page hin, scatter_outside (by decide) (Nat.le_add_right _ _)]
  case h_3 prod data hw =>
    cases hstep
    rw [hw] at hstream hagrees
    have hprod : prod = s.intf.inProd + UInt32.ofNat data.length := hagrees
    subst hprod
    exact ⟨hstream.publishWrite, trivial, h.single, h.untouched⟩
  case h_4 hg =>
    split at hstep
    · cases hstep
      exact h
    · case isFalse hne =>
      cases hstep
      have hpos : 1 ≤ (s.intf.inProd - s.intf.inCons).toNat := by
        have hcons := s.intf.inCons.toNat_lt
        have hprod := s.intf.inProd.toNat_lt
        rw [← UInt32.toNat_inj] at hne
        rw [UInt32.toNat_sub]
        omega
      exact ⟨hstream.loadRead hpos, hagrees, by simp, h.untouched⟩
  case h_5 off n hg =>
    cases hstep
    have hn := h.single off n hg
    subst hn
    rw [hg] at hstream
    have hoff : off < xenconsInSize := by
      rw [hstream.reader.1]
      exact Nat.mod_lt _ (by decide)
    exact ⟨hstream.sliceOut hoff, hagrees, by simp, h.untouched⟩
  case h_6 data hg =>
    cases hstep
    rw [hg] at hstream
    exact ⟨hstream.publishRead, hagrees, by simp, h.untouched⟩
  case h_7 => cases hstep

/-- From an empty ring, whatever is typed and however the guest reads in between: as long as
each call takes only characters whose positions have bit 10 clear, the guest reads what was
typed and its output array is left alone. -/
theorem console_input_delivered {intf : XenconsInterface} (h : intf.inProd = intf.inCons)
    {actions : List ConsoleAction} {s : ConsoleRun}
    (hrange : Machine.Along ConsoleRun.step ConsoleRun.TakesInRange (ConsoleRun.start intf) actions)
    (hrun : Machine.run ConsoleRun.step (ConsoleRun.start intf) actions = some s) :
    s.read <+: s.accepted ∧ ∀ k < xenconsOutSize, s.intf.out k = intf.out k := by
  have hstart : (ConsoleRun.start intf).Delivers intf.out :=
    ⟨Stream.start xenconsInSize_dvd _ h, trivial, by simp [ConsoleRun.start], fun _ => rfl⟩
  have hs : s.Delivers intf.out :=
    Machine.run_invariant (fun _ _ _ hd hr hstep => hd.step hr hstep) hstart hrange hrun
  exact ⟨hs.stream.unread.1, fun k _ => hs.untouched k⟩

theorem console_input_delivered_two :
    let intf : XenconsInterface := ⟨fun _ => 0, 0, 0, 0, 0⟩
    let actions : List ConsoleAction :=
      [.writeLoad [104, 105], .writeCopy, .guestCheck, .writeEnd, .guestCheck, .writeLoad [33],
        .guestRead, .writeCopy, .guestNext]
    Machine.Along ConsoleRun.step ConsoleRun.TakesInRange (ConsoleRun.start intf) actions ∧
      ∃ s, Machine.run ConsoleRun.step (ConsoleRun.start intf) actions = some s ∧
        s.read = [104] ∧ s.read <+: s.accepted := by
  intro intf actions
  have hrange : Machine.Along ConsoleRun.step ConsoleRun.TakesInRange (ConsoleRun.start intf)
      actions := by decide +kernel
  have hread : (Machine.run ConsoleRun.step (ConsoleRun.start intf) actions).map ConsoleRun.read =
      some [104] := by decide +kernel
  obtain ⟨s, hrun, hs⟩ := Option.map_eq_some_iff.mp hread
  exact ⟨hrange, s, hrun, hs, (console_input_delivered rfl hrange hrun).1⟩

/-- The 1025th character typed lands in the first byte of `out`. -/
theorem console_input_misplaced :
    ∃ (intf : XenconsInterface) (actions : List ConsoleAction) (s : ConsoleRun),
      intf.inProd = intf.inCons ∧
      Machine.run ConsoleRun.step (ConsoleRun.start intf) actions = some s ∧
      ¬ (s.read <+: s.accepted ∧ ∀ k < xenconsOutSize, s.intf.out k = intf.out k) := by
  let intf : XenconsInterface := ⟨fun _ => 0, 0, 0, 0, 0⟩
  let actions : List ConsoleAction :=
    [.writeLoad (List.replicate 1024 97), .writeCopy, .writeEnd, .guestCheck, .guestRead,
      .guestNext, .writeLoad [98], .writeCopy, .writeEnd]
  have hout : (Machine.run ConsoleRun.step (ConsoleRun.start intf) actions).map
      (fun s => s.intf.out 0) = some 98 := by decide +kernel
  obtain ⟨s, hrun, hs⟩ := Option.map_eq_some_iff.mp hout
  refine ⟨intf, actions, s, rfl, hrun, fun h => ?_⟩
  have hsame := h.2 0 (by decide)
  rw [hs] at hsame
  exact absurd hsame (by decide)

end Xenlib
