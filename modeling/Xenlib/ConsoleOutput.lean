import Mathlib.Data.List.TakeWhile
import Xenlib.Console

/-!
What a guest prints: `read_from_ext_ring` copies it from the shared page into the internal ring of
the console, and the display thread hands it to the shell, which stops at a NUL. The internal ring
gives up its oldest character when it is full.
-/

set_option autoImplicit false

namespace Xenlib

open Cyclic

def xenConsoleBufferSz : Nat := 8192

/-- The fields of `struct xen_domain_console` of the internal ring. -/
structure DomConsole where
  intBuf : Nat → UInt8
  intProd : UInt64
  intCons : UInt64
  lostChars : UInt64

def DomConsole.start (intBuf : Nat → UInt8) : DomConsole := ⟨intBuf, 0, 0, 0⟩

def intBufPos (idx : UInt64) : Nat := idx.toNat &&& (xenConsoleBufferSz - 1)

def consoleFeedIntRing (console : DomConsole) (ch : UInt8) : DomConsole :=
  let bufPos := intBufPos console.intProd
  let console := { console with
    intProd := console.intProd + 1
    intBuf := Function.update console.intBuf bufPos ch }
  if intBufPos console.intProd = intBufPos console.intCons then
    { console with lostChars := console.lostChars + 1, intCons := console.intCons + 1 }
  else console

/-- The copy loop, with its local `cons`. -/
def readFromExtRingLoop (intf : XenconsInterface) (prod : UInt32) :
    Nat → UInt32 → DomConsole → Option (UInt32 × DomConsole)
  | 0, cons, console => if cons ≠ prod then none else some (cons, console)
  | fuel + 1, cons, console =>
    if cons ≠ prod then
      let ch := intf.out (maskXenconsIdx cons xenconsOutSize)
      readFromExtRingLoop intf prod fuel (cons + 1) (consoleFeedIntRing console ch)
    else some (cons, console)

/-- The result is the number of characters with the new state. The loop makes no more rounds than
there are cells. -/
def readFromExtRing (intf : XenconsInterface) (console : DomConsole) :
    Option (Nat × XenconsInterface × DomConsole) :=
  if 2048 < intf.outProd - intf.outCons then
    some (0, { intf with outCons := intf.outProd }, console)
  else
    (readFromExtRingLoop intf intf.outProd xenconsOutSize intf.outCons console).map
      fun (cons, console) =>
        ((cons - intf.outCons).toNat, { intf with outCons := cons }, console)

/-- What `shell_fprintf(shell, SHELL_NORMAL, "%.*s", size, ..)` prints of the piece. -/
def shellFprintf (piece : Bytes) : Bytes := piece.takeWhile (· ≠ 0)

/-- The loop of the display thread with what the shell prints, for so many rounds. -/
def consoleDisplayLoop : Nat → DomConsole → Option (DomConsole × List Bytes)
  | 0, console => if console.intCons < console.intProd then none else some (console, [])
  | fuel + 1, console =>
    if console.intCons < console.intProd then
      let bufPos := intBufPos console.intCons
      let prodBufPos := intBufPos console.intProd
      let size := if bufPos < prodBufPos then prodBufPos - bufPos else xenConsoleBufferSz - bufPos
      (consoleDisplayLoop fuel
          { console with intCons := console.intCons + UInt64.ofNat size }).map
        fun (console', chunks) =>
          (console', shellFprintf (slice console.intBuf bufPos size) :: chunks)
    else some (console, [])

/-- A round of the display thread. The first component is the number of lost characters that it
reports. -/
def consoleDisplay (fuel : Nat) (console : DomConsole) :
    Option (UInt64 × DomConsole × List Bytes) :=
  let reported := console.lostChars
  let console := if console.lostChars ≠ 0 then { console with lostChars := 0 } else console
  (consoleDisplayLoop fuel console).map fun (console, chunks) => (reported, console, chunks)

namespace DomConsole

def unshown (console : DomConsole) : Bytes :=
  content xenConsoleBufferSz console.intBuf console.intCons.toNat
    (console.intProd.toNat - console.intCons.toNat)

structure Ok (console : DomConsole) : Prop where
  ordered : console.intCons.toNat ≤ console.intProd.toNat
  bound : console.intProd.toNat - console.intCons.toNat ≤ xenConsoleBufferSz - 1
  counted : console.lostChars.toNat ≤ console.intCons.toNat

def givenUp (console : DomConsole) : Bytes :=
  if intBufPos (console.intProd + 1) = intBufPos console.intCons then
    [console.intBuf (intBufPos console.intCons)]
  else []

end DomConsole

theorem intBufPos_eq (idx : UInt64) : intBufPos idx = idx.toNat % xenConsoleBufferSz :=
  Nat.and_two_pow_sub_one_eq_mod idx.toNat 13

theorem content_one {α : Type} (N : Nat) (buf : Nat → α) (start : Nat) :
    content N buf start 1 = [buf (start % N)] := by
  simp [content]

theorem UInt64_toNat_succ {n : UInt64} (h : n.toNat + 1 < 2 ^ 64) :
    (n + 1).toNat = n.toNat + 1 := by
  rw [UInt64.toNat_add, UInt64.toNat_one]
  omega

/-- One more character: the ring takes it, and gives up the oldest one where it was full. -/
structure Fed (console : DomConsole) (data lost : Bytes) (console' : DomConsole) : Prop where
  ok : console'.Ok
  prod : console'.intProd.toNat = console.intProd.toNat + data.length
  lostChars : console'.lostChars.toNat = console.lostChars.toNat + lost.length
  bytes : console.unshown ++ data = lost ++ console'.unshown

theorem consoleFeedIntRing_fed {console : DomConsole} (h : console.Ok)
    (htotal : console.intProd.toNat + 1 < 2 ^ 64) (ch : UInt8) :
    Fed console [ch] console.givenUp (consoleFeedIntRing console ch) := by
  obtain ⟨buf, prod, cons, lost⟩ := console
  obtain ⟨hord, hbound, hlost⟩ := h
  simp only [xenConsoleBufferSz] at hord hbound hlost htotal
  have hprod := UInt64_toNat_succ htotal
  generalize hn : prod.toNat - cons.toNat = n at hbound
  have hstart : cons.toNat + n = prod.toNat := by omega
  have hpos : intBufPos prod = (cons.toNat + n) % xenConsoleBufferSz := by
    rw [intBufPos_eq, hstart]
  have hpush : content xenConsoleBufferSz (Function.update buf (intBufPos prod) ch) cons.toNat
      (n + 1) = content xenConsoleBufferSz buf cons.toNat n ++ [ch] := by
    have hlt : (cons.toNat + n) % xenConsoleBufferSz < xenConsoleBufferSz :=
      Nat.mod_lt _ (by decide)
    rw [hpos, ← blit_singleton]
    exact @content_blit _ _ _ _ _ [ch] (by simp [xenConsoleBufferSz]; omega)
      (by simp only [List.length_singleton]; omega)
  have hfull : intBufPos (prod + 1) = intBufPos cons ↔ n = xenConsoleBufferSz - 1 := by
    rw [intBufPos_eq, intBufPos_eq, hprod]
    simp only [xenConsoleBufferSz]
    omega
  by_cases hlast : intBufPos (prod + 1) = intBufPos cons
  · -- the oldest character leaves
    have hn' := hfull.mp hlast
    simp only [xenConsoleBufferSz] at hn'
    have hcons : (cons + 1).toNat = cons.toNat + 1 := UInt64_toNat_succ (by omega)
    have hcell : intBufPos cons ≠ intBufPos prod := by
      rw [intBufPos_eq, intBufPos_eq]
      simp only [xenConsoleBufferSz]
      omega
    have hsplit := content_add xenConsoleBufferSz (Function.update buf (intBufPos prod) ch)
      cons.toNat 1 n
    rw [content_one, ← intBufPos_eq, Function.update_of_ne hcell, Nat.add_comm 1 n, hpush]
      at hsplit
    simp only [DomConsole.givenUp, consoleFeedIntRing, hlast, if_true]
    refine ⟨⟨?_, ?_, ?_⟩, ?_, ?_, ?_⟩
    · simp only [hprod, hcons]
      omega
    · simp only [hprod, hcons, xenConsoleBufferSz]
      omega
    · simp only [hcons, UInt64_toNat_succ (show lost.toNat + 1 < 2 ^ 64 by omega)]
      omega
    · simp only [hprod, List.length_singleton]
    · exact UInt64_toNat_succ (by omega)
    · simp only [DomConsole.unshown, hprod, hcons, hn]
      rw [hsplit, show prod.toNat + 1 - (cons.toNat + 1) = n by omega]
  · have hn' : n ≠ xenConsoleBufferSz - 1 := fun he => hlast (hfull.mpr he)
    simp only [xenConsoleBufferSz] at hn'
    simp only [DomConsole.givenUp, consoleFeedIntRing, hlast, if_false]
    refine ⟨⟨?_, ?_, hlost⟩, ?_, rfl, ?_⟩
    · simp only [hprod]
      omega
    · simp only [hprod, xenConsoleBufferSz]
      omega
    · simp only [hprod, List.length_singleton]
    · simp only [DomConsole.unshown, hprod, hn, List.nil_append]
      rw [← hpush, show prod.toNat + 1 - cons.toNat = n + 1 by omega]

def lostFeeding : DomConsole → Bytes → Bytes
  | _, [] => []
  | console, ch :: data => console.givenUp ++ lostFeeding (consoleFeedIntRing console ch) data

theorem foldl_feed_fed {console : DomConsole} {data : Bytes} (h : console.Ok)
    (htotal : console.intProd.toNat + data.length < 2 ^ 64) :
    Fed console data (lostFeeding console data) (data.foldl consoleFeedIntRing console) := by
  induction data generalizing console with
  | nil => exact ⟨h, rfl, rfl, by simp [lostFeeding]⟩
  | cons ch data ih =>
    rw [List.length_cons] at htotal
    have hone := consoleFeedIntRing_fed h (by omega) ch
    have hprod := hone.prod
    rw [List.length_singleton] at hprod
    have hrest := ih hone.ok (by omega)
    refine ⟨hrest.ok, ?_, ?_, ?_⟩
    · rw [List.foldl_cons, hrest.prod, hprod, List.length_cons]
      omega
    · rw [List.foldl_cons, hrest.lostChars, hone.lostChars, lostFeeding, List.length_append]
      omega
    · have hfirst := hone.bytes
      rw [List.foldl_cons, lostFeeding, List.append_assoc, ← hrest.bytes, ← List.append_assoc,
        ← hfirst, List.append_assoc]
      rfl

theorem readFromExtRingLoop_eq {intf : XenconsInterface} {prod cons : UInt32} {n fuel : Nat}
    (hn : (prod - cons).toNat = n) (hfuel : n ≤ fuel) (console : DomConsole) :
    readFromExtRingLoop intf prod fuel cons console =
      some (prod, (content xenconsOutSize intf.out cons.toNat n).foldl consoleFeedIntRing
        console) := by
  induction n generalizing cons fuel console with
  | zero =>
    obtain rfl : cons = prod := by
      have hp := prod.toNat_lt
      have hc := cons.toNat_lt
      rw [UInt32.toNat_sub] at hn
      rw [← UInt32.toNat_inj]
      omega
    cases fuel <;> simp [readFromExtRingLoop, content]
  | succ n ih =>
    have hne : cons ≠ prod := by
      rintro rfl
      simp at hn
    have hnext : (prod - (cons + 1)).toNat = n := by
      have := @distance_follow cons prod 1 (by omega)
      rw [hn] at this
      exact this
    cases fuel with
    | zero => omega
    | succ fuel =>
      have hfollow := content_follow (N := xenconsOutSize) (by decide) intf.out cons 1 n
      rw [readFromExtRingLoop, if_pos hne]
      simp only
      rw [ih hnext (by omega), Nat.add_comm n 1, content_add, content_one, maskXenconsIdx_out,
        ← hfollow]
      rfl

theorem consoleDisplayLoop_piece {console : DomConsole} (h : console.Ok)
    (hlt : console.intCons.toNat < console.intProd.toNat) :
    ∃ size, 0 < size ∧ size ≤ console.intProd.toNat - console.intCons.toNat ∧
      (size = console.intProd.toNat - console.intCons.toNat ∨
        (console.intCons.toNat + size) % xenConsoleBufferSz = 0) ∧
      (console.intCons + UInt64.ofNat size).toNat = console.intCons.toNat + size ∧
      ∀ fuel, consoleDisplayLoop (fuel + 1) console =
        (consoleDisplayLoop fuel
            { console with intCons := console.intCons + UInt64.ofNat size }).map
          fun r => (r.1, shellFprintf
            (content xenConsoleBufferSz console.intBuf console.intCons.toNat size) :: r.2) := by
  obtain ⟨buf, prod, cons, lost⟩ := console
  have hbound := h.bound
  have hp := prod.toNat_lt
  simp only [xenConsoleBufferSz] at hlt hbound ⊢
  have hcons := intBufPos_eq cons
  have hprod := intBufPos_eq prod
  simp only [xenConsoleBufferSz] at hcons hprod
  generalize hsize : (if intBufPos cons < intBufPos prod then intBufPos prod - intBufPos cons
    else 8192 - intBufPos cons) = size
  have hfacts : 0 < size ∧ size ≤ prod.toNat - cons.toNat ∧
      (size = prod.toNat - cons.toNat ∨ (cons.toNat + size) % 8192 = 0) ∧
      cons.toNat % 8192 + size ≤ 8192 := by
    split at hsize <;> omega
  obtain ⟨hpos, hle, hend, hinside⟩ := hfacts
  have hadd : (cons + UInt64.ofNat size).toNat = cons.toNat + size := by
    rw [UInt64.toNat_add, UInt64.toNat_ofNat']
    omega
  refine ⟨size, hpos, hle, hend, hadd, fun fuel => ?_⟩
  have hslice : slice buf (intBufPos cons) size = content 8192 buf cons.toNat size := by
    rw [hcons]
    exact slice_eq_content hinside
  have hless : cons < prod := UInt64.lt_iff_toNat_lt.mpr hlt
  simp only [consoleDisplayLoop, if_pos hless, xenConsoleBufferSz, hsize, hslice]

theorem consoleDisplayLoop_done {console : DomConsole} (h : console.intCons = console.intProd)
    (fuel : Nat) : consoleDisplayLoop fuel console = some (console, []) := by
  have hnot : ¬ console.intCons < console.intProd := by
    rw [h]
    exact UInt64.lt_irrefl _
  cases fuel <;> simp [consoleDisplayLoop, hnot]

theorem consoleDisplayLoop_all {console : DomConsole} (h : console.Ok) {fuel : Nat}
    (hfuel : 2 ≤ fuel) :
    ∃ pieces : List Bytes, consoleDisplayLoop fuel console =
        some ({ console with intCons := console.intProd }, pieces.map shellFprintf) ∧
      pieces.flatten = console.unshown := by
  obtain ⟨fuel, rfl⟩ := Nat.exists_eq_add_of_le' hfuel
  by_cases hlt : console.intCons.toNat < console.intProd.toNat
  · obtain ⟨size, hpos, hle, hend, hadd, hloop⟩ := consoleDisplayLoop_piece h hlt
    by_cases hall : size = console.intProd.toNat - console.intCons.toNat
    · have hdone : console.intCons + UInt64.ofNat size = console.intProd := by
        rw [← UInt64.toNat_inj, hadd]
        omega
      refine ⟨[content xenConsoleBufferSz console.intBuf console.intCons.toNat size], ?_, ?_⟩
      · rw [hloop, hdone, consoleDisplayLoop_done rfl, Option.map_some]
        rfl
      · simp [DomConsole.unshown, hall]
    · -- the second piece starts with the array
      have hwrap := hend.resolve_left hall
      have hbound := h.bound
      have hok : DomConsole.Ok { console with intCons := console.intCons + UInt64.ofNat size } :=
        ⟨by simp only [hadd]; omega, by simp only [hadd]; omega,
          by simp only [hadd]; exact h.counted.trans (by omega)⟩
      obtain ⟨size', hpos', hle', hend', hadd', hloop'⟩ := consoleDisplayLoop_piece hok
        (by simp only [hadd]; omega)
      simp only [hadd, xenConsoleBufferSz] at hle' hend' hadd' hbound hwrap
      have hall' : size' = console.intProd.toNat - (console.intCons.toNat + size) := by omega
      have hdone : console.intCons + UInt64.ofNat size + UInt64.ofNat size' = console.intProd := by
        rw [← UInt64.toNat_inj, hadd']
        omega
      refine ⟨[content xenConsoleBufferSz console.intBuf console.intCons.toNat size,
        content xenConsoleBufferSz console.intBuf (console.intCons + UInt64.ofNat size).toNat
          size'], ?_, ?_⟩
      · rw [hloop, hloop', hdone, consoleDisplayLoop_done rfl, Option.map_some, Option.map_some]
        rfl
      · simp only [List.flatten_cons, List.flatten_nil, List.append_nil, hadd, DomConsole.unshown]
        rw [← content_add]
        congr 1
        omega
  · have hdone : console.intCons = console.intProd := by
      rw [← UInt64.toNat_inj]
      have := h.ordered
      omega
    refine ⟨[], ?_, ?_⟩
    · obtain ⟨buf, prod, cons, lost⟩ := console
      obtain rfl : cons = prod := hdone
      exact consoleDisplayLoop_done rfl _
    · simp [DomConsole.unshown, hdone, content]

/-- A round takes what is in the ring and reports what was lost before it. -/
theorem consoleDisplay_all {console : DomConsole} (h : console.Ok) {fuel : Nat}
    (hfuel : 2 ≤ fuel) :
    ∃ pieces : List Bytes, consoleDisplay fuel console = some (console.lostChars,
        { console with lostChars := 0, intCons := console.intProd }, pieces.map shellFprintf) ∧
      pieces.flatten = console.unshown := by
  have hreset : (if console.lostChars ≠ 0 then { console with lostChars := 0 } else console) =
      { console with lostChars := 0 } := by
    split
    · rfl
    · rename_i hzero
      obtain ⟨buf, prod, cons, lost⟩ := console
      obtain rfl : lost = 0 := not_not.mp hzero
      rfl
  have hok : DomConsole.Ok { console with lostChars := 0 } := ⟨h.ordered, h.bound, Nat.zero_le _⟩
  obtain ⟨pieces, hloop, hpieces⟩ := consoleDisplayLoop_all hok hfuel
  refine ⟨pieces, ?_, hpieces⟩
  simp only [consoleDisplay, hreset, hloop, Option.map_some]

theorem shellFprintf_length_le (piece : Bytes) : (shellFprintf piece).length ≤ piece.length :=
  (List.takeWhile_prefix _).length_le

theorem shellFprintf_eq_iff (piece : Bytes) : shellFprintf piece = piece ↔ 0 ∉ piece := by
  rw [shellFprintf, List.takeWhile_eq_self_iff]
  constructor
  · exact fun h hmem => absurd (h 0 hmem) (by decide)
  · rintro h ch hmem
    exact decide_eq_true fun hz => h (hz ▸ hmem)

theorem flatten_shellFprintf_length_le (pieces : List Bytes) :
    (pieces.map shellFprintf).flatten.length ≤ pieces.flatten.length := by
  induction pieces with
  | nil => exact Nat.le_refl _
  | cons piece pieces ih =>
    have hpiece := shellFprintf_length_le piece
    simp only [List.map_cons, List.flatten_cons, List.length_append]
    omega

/-- Pieces are printed whole when there is no NUL in them, and only then. -/
theorem flatten_shellFprintf_iff (pieces : List Bytes) :
    (pieces.map shellFprintf).flatten = pieces.flatten ↔ 0 ∉ pieces.flatten := by
  induction pieces with
  | nil => simp
  | cons piece pieces ih =>
    rw [List.map_cons, List.flatten_cons, List.flatten_cons, List.mem_append, not_or, ← ih,
      ← shellFprintf_eq_iff]
    refine ⟨fun h => ?_, fun h => by rw [h.1, h.2]⟩
    -- neither part is longer than its piece, so each of them is whole
    refine List.append_inj h ?_
    have hall := congrArg List.length h
    have hpiece := shellFprintf_length_le piece
    have hrest := flatten_shellFprintf_length_le pieces
    simp only [List.length_append] at hall
    omega

/-- The guest picks free cells of `out`, fills them and moves its index. -/
def XenconsInterface.putOut (intf : XenconsInterface) (off : Nat) (data : Bytes) :
    XenconsInterface :=
  { intf with page := fun k =>
      if k < xenconsInSize then intf.page k
      else blitTwo xenconsOutSize intf.out off data (k - xenconsInSize) }

theorem XenconsInterface.putOut_out (intf : XenconsInterface) (off : Nat) (data : Bytes) :
    (intf.putOut off data).out = blitTwo xenconsOutSize intf.out off data := by
  funext k
  have hge : ¬ xenconsInSize + k < xenconsInSize := by omega
  simp only [XenconsInterface.out, XenconsInterface.putOut, if_neg hge, Nat.add_sub_cancel_left]

/-- A call has read the indexes, or has fed the characters `data`. -/
inductive ExtReader where
  | idle
  | loaded (cons prod : UInt32)
  | fed (cons : UInt32) (data : Bytes)
  deriving DecidableEq

/-- A call holds the lock of the console all the while, as does a round of the display thread, in
which the loop has at most two rounds. -/
structure OutputRun where
  intf : XenconsInterface
  console : DomConsole
  guest : Writer UInt8
  reader : ExtReader
  /-- What the guest has put into its ring. -/
  sent : Bytes
  /-- What the finished calls have taken out of it. -/
  received : Bytes
  /-- The characters that have left the internal ring, with whether a round took them. -/
  fates : List (UInt8 × Bool)
  /-- What the shell has printed. -/
  chunks : List Bytes
  /-- The sum of the reported losses. -/
  reported : Nat

def OutputRun.start (intf : XenconsInterface) (intBuf : Nat → UInt8) : OutputRun :=
  ⟨intf, .start intBuf, .idle, .idle, [], [], [], [], 0⟩

inductive OutputAction where
  | guestLoad (data : Bytes)
  | guestCopy
  | guestPublish
  | readLoad
  | readFeed
  | readEnd
  | display
  deriving DecidableEq

def OutputRun.step (s : OutputRun) (action : OutputAction) : Option OutputRun :=
  match action, s.guest, s.reader with
  | .guestLoad data, .idle, _ =>
    if (s.intf.outProd - s.intf.outCons).toNat + data.length ≤ xenconsOutSize then
      some { s with guest := .loaded (s.intf.outProd.toNat % xenconsOutSize) data }
    else none
  | .guestCopy, .loaded off data, _ =>
    some { s with intf := s.intf.putOut off data, guest := .copied data }
  | .guestPublish, .copied data, _ =>
    some { s with intf := { s.intf with outProd := s.intf.outProd + UInt32.ofNat data.length },
                  guest := .idle, sent := s.sent ++ data }
  | .readLoad, _, .idle =>
    if 2048 < s.intf.outProd - s.intf.outCons then
      some { s with intf := { s.intf with outCons := s.intf.outProd } }
    else some { s with reader := .loaded s.intf.outCons s.intf.outProd }
  | .readFeed, _, .loaded cons prod =>
    let data := content xenconsOutSize s.intf.out cons.toNat (prod - cons).toNat
    (readFromExtRingLoop s.intf prod xenconsOutSize cons s.console).map fun (cons, console) =>
      { s with console := console, reader := .fed cons data,
               fates := s.fates ++ (lostFeeding s.console data).map (·, false) }
  | .readEnd, _, .fed cons data =>
    some { s with intf := { s.intf with outCons := cons }, reader := .idle,
                  received := s.received ++ data }
  | .display, _, .idle =>
    (consoleDisplay 2 s.console).map fun (reported, console, chunks) =>
      { s with console := console, chunks := s.chunks ++ chunks,
               reported := s.reported + reported.toNat,
               fates := s.fates ++ s.console.unshown.map (·, true) }
  | _, _, _ => none

inductive OutputRun.Step (s : OutputRun) : OutputAction → OutputRun → Prop where
  | guestLoad (data : Bytes) (hguest : s.guest = .idle)
      (hfit : (s.intf.outProd - s.intf.outCons).toNat + data.length ≤ xenconsOutSize) :
      Step s (.guestLoad data)
        { s with guest := .loaded (s.intf.outProd.toNat % xenconsOutSize) data }
  | guestCopy (off : Nat) (data : Bytes) (hguest : s.guest = .loaded off data) :
      Step s .guestCopy { s with intf := s.intf.putOut off data, guest := .copied data }
  | guestPublish (data : Bytes) (hguest : s.guest = .copied data) :
      Step s .guestPublish
        { s with intf := { s.intf with outProd := s.intf.outProd + UInt32.ofNat data.length },
                 guest := .idle, sent := s.sent ++ data }
  | readAway (hreader : s.reader = .idle) (hfar : 2048 < s.intf.outProd - s.intf.outCons) :
      Step s .readLoad { s with intf := { s.intf with outCons := s.intf.outProd } }
  | readLoad (hreader : s.reader = .idle) (hnear : ¬ 2048 < s.intf.outProd - s.intf.outCons) :
      Step s .readLoad { s with reader := .loaded s.intf.outCons s.intf.outProd }
  | readFeed (cons prod cons' : UInt32) (console : DomConsole)
      (hreader : s.reader = .loaded cons prod)
      (hloop : readFromExtRingLoop s.intf prod xenconsOutSize cons s.console =
        some (cons', console)) :
      Step s .readFeed
        { s with console := console,
                 reader := .fed cons' (content xenconsOutSize s.intf.out cons.toNat
                   (prod - cons).toNat),
                 fates := s.fates ++ (lostFeeding s.console (content xenconsOutSize s.intf.out
                   cons.toNat (prod - cons).toNat)).map (·, false) }
  | readEnd (cons : UInt32) (data : Bytes) (hreader : s.reader = .fed cons data) :
      Step s .readEnd
        { s with intf := { s.intf with outCons := cons }, reader := .idle,
                 received := s.received ++ data }
  | display (reported : UInt64) (console : DomConsole) (chunks : List Bytes)
      (hreader : s.reader = .idle)
      (hround : consoleDisplay 2 s.console = some (reported, console, chunks)) :
      Step s .display
        { s with console := console, chunks := s.chunks ++ chunks,
                 reported := s.reported + reported.toNat,
                 fates := s.fates ++ s.console.unshown.map (·, true) }

section Parts
variable {s : OutputRun}

theorem OutputRun.step_guestLoad (data : Bytes) (h : s.guest = .idle) :
    s.step (.guestLoad data) =
      if (s.intf.outProd - s.intf.outCons).toNat + data.length ≤ xenconsOutSize then
        some { s with guest := .loaded (s.intf.outProd.toNat % xenconsOutSize) data }
      else none := by
  cases s
  cases h
  rfl

theorem OutputRun.step_readLoad (h : s.reader = .idle) :
    s.step .readLoad =
      if 2048 < s.intf.outProd - s.intf.outCons then
        some { s with intf := { s.intf with outCons := s.intf.outProd } }
      else some { s with reader := .loaded s.intf.outCons s.intf.outProd } := by
  cases s
  cases h
  rfl

theorem OutputRun.step_readFeed {cons prod : UInt32} (h : s.reader = .loaded cons prod) :
    s.step .readFeed =
      (readFromExtRingLoop s.intf prod xenconsOutSize cons s.console).map fun (cons', console) =>
        { s with console := console,
                 reader := .fed cons' (content xenconsOutSize s.intf.out cons.toNat
                   (prod - cons).toNat),
                 fates := s.fates ++ (lostFeeding s.console (content xenconsOutSize s.intf.out
                   cons.toNat (prod - cons).toNat)).map (·, false) } := by
  cases s
  cases h
  rfl

theorem OutputRun.step_readEnd {cons : UInt32} {data : Bytes} (h : s.reader = .fed cons data) :
    s.step .readEnd =
      some { s with intf := { s.intf with outCons := cons }, reader := .idle,
                    received := s.received ++ data } := by
  cases s
  cases h
  rfl

theorem OutputRun.step_display (h : s.reader = .idle) :
    s.step .display =
      (consoleDisplay 2 s.console).map fun (reported, console, chunks) =>
        { s with console := console, chunks := s.chunks ++ chunks,
                 reported := s.reported + reported.toNat,
                 fates := s.fates ++ s.console.unshown.map (·, true) } := by
  cases s
  cases h
  rfl

end Parts

theorem OutputRun.Step.of_step {s s' : OutputRun} {action : OutputAction}
    (hstep : s.step action = some s') : s.Step action s' := by
  cases action with
  | guestLoad data =>
    cases hguest : s.guest with
    | idle =>
      rw [OutputRun.step_guestLoad data hguest] at hstep
      split at hstep
      · rename_i hfit
        cases hstep
        exact .guestLoad data hguest hfit
      · cases hstep
    | loaded off data => cases s; cases hguest; cases hstep
    | copied data => cases s; cases hguest; cases hstep
  | guestCopy =>
    cases hguest : s.guest with
    | loaded off data => cases s; cases hguest; cases hstep; exact .guestCopy off data rfl
    | idle => cases s; cases hguest; cases hstep
    | copied data => cases s; cases hguest; cases hstep
  | guestPublish =>
    cases hguest : s.guest with
    | copied data => cases s; cases hguest; cases hstep; exact .guestPublish data rfl
    | idle => cases s; cases hguest; cases hstep
    | loaded off data => cases s; cases hguest; cases hstep
  | readLoad =>
    cases hreader : s.reader with
    | idle =>
      rw [OutputRun.step_readLoad hreader] at hstep
      split at hstep
      · rename_i hfar
        cases hstep
        exact .readAway hreader hfar
      · rename_i hnear
        cases hstep
        exact .readLoad hreader hnear
    | loaded cons prod => cases s; cases hreader; cases hstep
    | fed cons data => cases s; cases hreader; cases hstep
  | readFeed =>
    cases hreader : s.reader with
    | loaded cons prod =>
      rw [OutputRun.step_readFeed hreader, Option.map_eq_some_iff] at hstep
      obtain ⟨⟨cons', console⟩, hloop, rfl⟩ := hstep
      exact .readFeed cons prod cons' console hreader hloop
    | idle => cases s; cases hreader; cases hstep
    | fed cons data => cases s; cases hreader; cases hstep
  | readEnd =>
    cases hreader : s.reader with
    | fed cons data =>
      rw [OutputRun.step_readEnd hreader] at hstep
      cases hstep
      exact .readEnd cons data hreader
    | idle => cases s; cases hreader; cases hstep
    | loaded cons prod => cases s; cases hreader; cases hstep
  | display =>
    cases hreader : s.reader with
    | idle =>
      rw [OutputRun.step_display hreader, Option.map_eq_some_iff] at hstep
      obtain ⟨⟨reported, console, chunks⟩, hround, rfl⟩ := hstep
      exact .display reported console chunks hreader hround
    | loaded cons prod => cases s; cases hreader; cases hstep
    | fed cons data => cases s; cases hreader; cases hstep

theorem readFromExtRing_parts (s : OutputRun) (hidle : s.reader = .idle)
    (h : ¬ 2048 < s.intf.outProd - s.intf.outCons) :
    (Machine.run OutputRun.step s [.readLoad, .readFeed, .readEnd]).map
        (fun s => (s.intf, s.console)) =
      (readFromExtRing s.intf s.console).map Prod.snd := by
  simp only [Machine.run, OutputRun.step_readLoad hidle, if_neg h, readFromExtRing]
  rw [OutputRun.step_readFeed rfl]
  cases readFromExtRingLoop s.intf s.intf.outProd xenconsOutSize s.intf.outCons s.console with
  | none => rfl
  | some r => rfl

theorem xenconsOutSize_dvd : xenconsOutSize ∣ 2 ^ 32 ∧ xenconsOutSize < 2 ^ 32 := by decide

def ExtReader.toReader : ExtReader → Reader UInt8
  | .idle => .idle
  | .loaded cons prod => .loaded (cons.toNat % xenconsOutSize) (prod - cons).toNat
  | .fed _ data => .copied data

def ExtReader.Agrees (outCons : UInt32) : ExtReader → Prop
  | .idle => True
  | .loaded cons _ => cons = outCons
  | .fed cons data => cons = outCons + UInt32.ofNat data.length

def ExtReader.taken : ExtReader → Bytes
  | .fed _ data => data
  | _ => []

/-- The characters that the rounds have taken, and those that were lost. -/
def shownOf (fates : List (UInt8 × Bool)) : Bytes := (fates.filter Prod.snd).map Prod.fst

def lostOf (fates : List (UInt8 × Bool)) : Bytes := (fates.filter fun f => !f.2).map Prod.fst

theorem shownOf_append (fates : List (UInt8 × Bool)) (data : Bytes) (b : Bool) :
    shownOf (fates ++ data.map (·, b)) = shownOf fates ++ if b then data else [] := by
  cases b <;> simp [shownOf, List.filter_map, Function.comp_def]

theorem lostOf_append (fates : List (UInt8 × Bool)) (data : Bytes) (b : Bool) :
    lostOf (fates ++ data.map (·, b)) = lostOf fates ++ if b then [] else data := by
  cases b <;> simp [lostOf, List.filter_map, Function.comp_def]

namespace OutputRun

def fed (s : OutputRun) : Bytes := s.received ++ s.reader.taken

/-- The characters in the ring of the guest that were not fed yet. -/
def pending (s : OutputRun) : Bytes :=
  let cons := match s.reader with
    | .fed cons _ => cons
    | _ => s.intf.outCons
  content xenconsOutSize s.intf.out cons.toNat (s.intf.outProd - cons).toNat

structure Keeps (s : OutputRun) : Prop where
  stream : Stream xenconsOutSize s.intf.out s.intf.outCons s.intf.outProd s.guest
    s.reader.toReader s.sent s.received
  agrees : s.reader.Agrees s.intf.outCons
  ok : s.console.Ok
  prod : s.console.intProd.toNat = s.fed.length
  bytes : s.fed = s.fates.map Prod.fst ++ s.console.unshown
  shown : ∃ pieces : List Bytes, s.chunks = pieces.map shellFprintf ∧
    pieces.flatten = shownOf s.fates
  lost : s.reported + s.console.lostChars.toNat = (lostOf s.fates).length

variable {s s' : OutputRun} {action : OutputAction}

theorem Keeps.fed_pending (h : s.Keeps) : s.sent = s.fed ++ s.pending := by
  have hstream := h.stream
  have hagrees := h.agrees
  unfold fed pending
  cases hr : s.reader with
  | idle => simpa [ExtReader.taken] using hstream.carries
  | loaded cons prod => simpa [ExtReader.taken] using hstream.carries
  | fed cons data =>
    rw [hr] at hstream hagrees
    obtain rfl : cons = s.intf.outCons + UInt32.ofNat data.length := hagrees
    exact hstream.publishRead.carries

theorem Keeps.fed_le (h : s.Keeps) : s.fed.length ≤ s.sent.length := by
  rw [h.fed_pending, List.length_append]
  omega

theorem step_sent (hstep : s.step action = some s') : s.sent <+: s'.sent := by
  cases Step.of_step hstep with
  | guestPublish data hguest => exact List.prefix_append _ _
  | _ => exact List.prefix_rfl

/-- The characters leave the internal ring in their order: a round of the display thread takes
them, any other step that takes some loses them. -/
theorem step_fates (hstep : s.step action = some s') :
    ∃ data : Bytes, s'.fates = s.fates ++ data.map (·, decide (action = .display)) := by
  cases Step.of_step hstep with
  | readFeed cons prod cons' console hreader hloop => exact ⟨_, rfl⟩
  | display reported console chunks hreader hround => exact ⟨_, rfl⟩
  | _ => exact ⟨[], by simp⟩

/-- The characters of a call are fed one by one. -/
theorem Keeps.readFeed (h : s.Keeps) {cons prod cons' : UInt32} {console : DomConsole}
    (hreader : s.reader = .loaded cons prod)
    (hloop : readFromExtRingLoop s.intf prod xenconsOutSize cons s.console =
      some (cons', console)) (htotal : s.sent.length < 2 ^ 64) :
    OutputRun.Keeps
      { s with console := console,
               reader := .fed cons' (content xenconsOutSize s.intf.out cons.toNat
                 (prod - cons).toNat),
               fates := s.fates ++ (lostFeeding s.console (content xenconsOutSize s.intf.out
                 cons.toNat (prod - cons).toNat)).map (·, false) } := by
  have hstream := h.stream
  have hagrees := h.agrees
  rw [hreader] at hstream hagrees
  obtain rfl : cons = s.intf.outCons := hagrees
  have hle := hstream.reader.2
  have hbound := hstream.bound
  generalize hn : (prod - s.intf.outCons).toNat = n at hle
  rw [readFromExtRingLoop_eq hn (hle.trans hbound)] at hloop
  generalize hdata : content xenconsOutSize s.intf.out s.intf.outCons.toNat n = data at *
  cases hloop
  have hlen : data.length = n := by rw [← hdata, content_length]
  have hfed : s.fed = s.received := by simp [OutputRun.fed, hreader, ExtReader.taken]
  have hsent := (hstream.unread).2
  have hroom : s.console.intProd.toNat + data.length < 2 ^ 64 := by
    rw [h.prod, hfed, hlen]
    omega
  have hnew := foldl_feed_fed h.ok hroom
  have hbytes := h.bytes
  rw [hfed] at hbytes
  have hprod : prod = s.intf.outCons + UInt32.ofNat data.length := by
    rw [hlen, ← hn, UInt32.ofNat_toNat, UInt32.add_comm, UInt32.sub_add_cancel]
  refine ⟨?_, hprod, hnew.ok, ?_, ?_, ?_, ?_⟩
  · have hcopied := hstream.copyOut
    rw [hn, hdata] at hcopied
    exact hcopied
  · rw [hnew.prod, h.prod, hfed]
    simp [OutputRun.fed, ExtReader.taken]
  · rw [List.map_append, List.map_map, List.append_assoc]
    show s.received ++ data = _
    rw [hbytes, List.append_assoc, hnew.bytes]
    simp [Function.comp_def]
  · rw [shownOf_append]
    simpa using h.shown
  · rw [lostOf_append, hnew.lostChars, ← Nat.add_assoc, h.lost]
    simp

theorem Keeps.display (h : s.Keeps) {reported : UInt64} {console : DomConsole}
    {chunks : List Bytes}
    (hround : consoleDisplay 2 s.console = some (reported, console, chunks)) :
    OutputRun.Keeps
      { s with console := console, chunks := s.chunks ++ chunks,
               reported := s.reported + reported.toNat,
               fates := s.fates ++ s.console.unshown.map (·, true) } := by
  obtain ⟨pieces, hall, hpieces⟩ := consoleDisplay_all h.ok (Nat.le_refl 2)
  rw [hall] at hround
  cases hround
  obtain ⟨printed, hprinted, hshown⟩ := h.shown
  have hempty : DomConsole.unshown
      { s.console with lostChars := 0, intCons := s.console.intProd } = [] := by
    simp [DomConsole.unshown, content]
  refine ⟨h.stream, h.agrees, ⟨Nat.le_refl _, by simp, Nat.zero_le _⟩, h.prod, ?_, ?_, ?_⟩
  · rw [hempty, List.map_append, List.map_map, List.append_nil]
    show s.fed = _
    rw [h.bytes]
    simp [Function.comp_def]
  · refine ⟨printed ++ pieces, ?_, ?_⟩
    · rw [List.map_append, hprinted]
    · rw [List.flatten_append, hshown, hpieces, shownOf_append]
      rfl
  · have hcount := h.lost
    rw [lostOf_append]
    simpa using hcount

theorem Keeps.step (h : s.Keeps) (hstep : s.step action = some s')
    (htotal : s'.sent.length < 2 ^ 64) : s'.Keeps := by
  have hstream := h.stream
  have hagrees := h.agrees
  cases Step.of_step hstep with
  | guestLoad data hguest hfit =>
    exact ⟨hstream.loadWrite hfit, hagrees, h.ok, h.prod, h.bytes, h.shown, h.lost⟩
  | guestCopy off data hguest =>
    rw [hguest] at hstream
    have hcopied := hstream.blitTwoIn
    rw [← XenconsInterface.putOut_out] at hcopied
    exact ⟨hcopied, hagrees, h.ok, h.prod, h.bytes, h.shown, h.lost⟩
  | guestPublish data hguest =>
    rw [hguest] at hstream
    exact ⟨hstream.publishWrite, hagrees, h.ok, h.prod, h.bytes, h.shown, h.lost⟩
  | readAway hreader hfar =>
    rw [UInt32.lt_iff_toNat_lt] at hfar
    exact absurd hfar (Nat.not_lt.mpr hstream.bound)
  | readLoad hreader hnear =>
    have hfed : OutputRun.fed { s with reader := .loaded s.intf.outCons s.intf.outProd } =
        s.fed := by
      simp [OutputRun.fed, hreader, ExtReader.taken]
    rw [hreader] at hstream
    exact ⟨hstream.loadRead (Nat.le_refl _), rfl, h.ok, by rw [hfed]; exact h.prod,
      by rw [hfed]; exact h.bytes, h.shown, h.lost⟩
  | readFeed cons prod cons' console hreader hloop => exact h.readFeed hreader hloop htotal
  | readEnd cons data hreader =>
    rw [hreader] at hstream hagrees
    obtain rfl : cons = s.intf.outCons + UInt32.ofNat data.length := hagrees
    have hfed : OutputRun.fed { s with
        intf := { s.intf with outCons := s.intf.outCons + UInt32.ofNat data.length }
        reader := .idle, received := s.received ++ data } = s.fed := by
      simp [OutputRun.fed, hreader, ExtReader.taken]
    exact ⟨hstream.publishRead, trivial, h.ok, by rw [hfed]; exact h.prod,
      by rw [hfed]; exact h.bytes, h.shown, h.lost⟩
  | display reported console chunks hreader hround => exact h.display hround

theorem keeps_start {intf : XenconsInterface} (h : intf.outProd = intf.outCons)
    (intBuf : Nat → UInt8) : (OutputRun.start intf intBuf).Keeps where
  stream := Stream.start xenconsOutSize_dvd _ h
  agrees := trivial
  ok := ⟨Nat.le_refl _, Nat.zero_le _, Nat.zero_le _⟩
  prod := rfl
  bytes := rfl
  shown := ⟨[], rfl, rfl⟩
  lost := rfl

/-- What a run keeps as long as the indexes of the internal ring do not wrap. -/
def KeepsWithin (s : OutputRun) : Prop := s.sent.length < 2 ^ 64 → s.Keeps

theorem KeepsWithin.step (h : s.KeepsWithin) (hstep : s.step action = some s') :
    s'.KeepsWithin := fun htotal =>
  (h (Nat.lt_of_le_of_lt (step_sent hstep).length_le htotal)).step hstep htotal

theorem keeps_run {intf : XenconsInterface} (h : intf.outProd = intf.outCons)
    {intBuf : Nat → UInt8} {actions : List OutputAction}
    (hrun : Machine.run OutputRun.step (OutputRun.start intf intBuf) actions = some s)
    (htotal : s.sent.length < 2 ^ 64) : s.Keeps := by
  have hwithin : s.KeepsWithin :=
    Machine.run_invariant (fun _ _ _ hs _ hstep => hs.step hstep) (fun _ => keeps_start h intBuf)
      (Machine.along_true _ _) hrun
  exact hwithin htotal

/-- A state of a run: each character of the guest was taken by a round, was lost, or is still in
a ring. -/
structure Accounted (s : OutputRun) : Prop where
  bound : (s.console.intProd - s.console.intCons).toNat ≤ xenConsoleBufferSz - 1
  bytes : s.sent = s.fates.map Prod.fst ++ (s.console.unshown ++ s.pending)
  lost : s.reported + s.console.lostChars.toNat = (lostOf s.fates).length

structure Displayed (s : OutputRun) : Prop extends s.Accounted where
  shown : s.chunks.flatten = shownOf s.fates

/-- A step from the state: the characters that leave the internal ring are the oldest in it, and
they are taken by a round of the display thread and lost otherwise. -/
def StepInOrder (s : OutputRun) (action : OutputAction) : Prop :=
  ∀ s', s.step action = some s' → s'.sent.length < 2 ^ 64 → s'.Accounted ∧
    ∃ data : Bytes, s'.fates = s.fates ++ data.map (·, decide (action = .display))

/-- A round of the display thread comes to its end, with an empty ring. -/
def RoundEnds (s : OutputRun) : Prop :=
  s.reader = .idle →
    ∃ s', s.step .display = some s' ∧ s'.console.intCons = s'.console.intProd

/-- A round that starts finds no NUL in the ring. -/
def NoNul (s : OutputRun) (action : OutputAction) : Prop :=
  action = .display → 0 ∉ s.console.unshown

instance NoNul.decidable (s : OutputRun) (action : OutputAction) : Decidable (s.NoNul action) :=
  inferInstanceAs (Decidable (_ → _))

theorem Keeps.accounted (h : s.Keeps) : s.Accounted := by
  refine ⟨?_, ?_, h.lost⟩
  · have hp := s.console.intProd.toNat_lt
    have hord := h.ok.ordered
    have hbound := h.ok.bound
    rw [UInt64.toNat_sub]
    omega
  · rw [h.fed_pending, h.bytes, List.append_assoc]

theorem Keeps.displayed_iff (h : s.Keeps) : s.Displayed ↔ 0 ∉ shownOf s.fates := by
  obtain ⟨pieces, hchunks, hpieces⟩ := h.shown
  rw [← hpieces, ← flatten_shellFprintf_iff, hpieces, ← hchunks]
  exact ⟨fun hd => hd.shown, fun hs => ⟨h.accounted, hs⟩⟩

theorem Keeps.roundEnds (h : s.Keeps) : s.RoundEnds := by
  intro hidle
  obtain ⟨chunks, hround, -⟩ := consoleDisplay_all h.ok (Nat.le_refl 2)
  have hstep : (s.step .display).map (fun s' => decide (s'.console.intCons = s'.console.intProd)) =
      some true := by
    rw [OutputRun.step_display hidle, hround]
    simp
  obtain ⟨s', hs', hend⟩ := Option.map_eq_some_iff.mp hstep
  exact ⟨s', hs', of_decide_eq_true hend⟩

theorem step_shownOf (hstep : s.step action = some s') :
    shownOf s'.fates = shownOf s.fates ++ if action = .display then s.console.unshown else [] := by
  cases Step.of_step hstep with
  | readFeed cons prod cons' console hreader hloop => simp [shownOf_append]
  | display reported console chunks hreader hround => simp [shownOf_append]
  | _ => simp

theorem shownOf_noNul_iff {s₀ : OutputRun} {actions : List OutputAction}
    (hrun : Machine.run OutputRun.step s₀ actions = some s) :
    0 ∉ shownOf s.fates ↔
      0 ∉ shownOf s₀.fates ∧ Machine.Along OutputRun.step NoNul s₀ actions := by
  induction actions generalizing s₀ with
  | nil =>
    cases hrun
    exact ⟨fun h => ⟨h, trivial⟩, And.left⟩
  | cons action actions ih =>
    obtain ⟨s₁, hstep, hrest⟩ := Machine.run_cons hrun
    have hone : 0 ∉ shownOf s₁.fates ↔ 0 ∉ shownOf s₀.fates ∧ s₀.NoNul action := by
      rw [step_shownOf hstep, List.mem_append, not_or, NoNul]
      split
      · rename_i hdisplay
        simp [hdisplay]
      · rename_i hdisplay
        simp [hdisplay]
    have hnext : (∀ s', s₀.step action = some s' → Machine.Along OutputRun.step NoNul s' actions) ↔
        Machine.Along OutputRun.step NoNul s₁ actions := by
      refine ⟨fun h => h s₁ hstep, fun h s' hs' => ?_⟩
      cases hstep.symm.trans hs'
      exact h
    rw [ih hrest, hone, and_assoc, Machine.Along, hnext]

/-- Whatever the guest prints and however the calls and the rounds take turns: each character is
taken by a round in its turn, is counted as lost, or is still in a ring. What the rounds have
taken is printed exactly when no round has found a NUL. -/
theorem consoleOutput_displayed (intf : XenconsInterface) (intBuf : Nat → UInt8)
    (actions : List OutputAction) (s : OutputRun) (h : intf.outProd = intf.outCons)
    (hrun : Machine.run OutputRun.step (OutputRun.start intf intBuf) actions = some s)
    (htotal : s.sent.length < 2 ^ 64) :
    (s.Displayed ↔ Machine.Along OutputRun.step NoNul (OutputRun.start intf intBuf) actions) ∧
      s.Accounted ∧ s.RoundEnds ∧ ∀ action, s.StepInOrder action := by
  have hkeeps := keeps_run h hrun htotal
  refine ⟨?_, hkeeps.accounted, hkeeps.roundEnds, fun _ _ hstep hlt =>
    ⟨(hkeeps.step hstep hlt).accounted, step_fates hstep⟩⟩
  rw [hkeeps.displayed_iff, shownOf_noNul_iff hrun]
  exact and_iff_right List.not_mem_nil

/-- The guest prints `data` while a round is on, and the next round takes it. -/
def printed (data : Bytes) : List OutputAction :=
  [.guestLoad data, .guestCopy, .display, .guestPublish, .readLoad, .readFeed, .readEnd, .display]

def atRest : OutputRun := OutputRun.start ⟨fun _ => 0, 0, 0, 0, 0⟩ fun _ => 0

/-- The guest prints "hi". -/
theorem consoleOutput_displayed_two :
    ∃ s, Machine.run OutputRun.step atRest (printed [104, 105]) = some s ∧
      s.chunks = [[104, 105]] ∧ s.Displayed := by
  have hrun : (Machine.run OutputRun.step atRest (printed [104, 105])).map
      (fun s => (s.chunks, s.sent.length)) = some ([[104, 105]], 2) := by
    decide +kernel
  have hnul : Machine.Along OutputRun.step NoNul atRest (printed [104, 105]) := by
    decide +kernel
  obtain ⟨s, hs, hshown⟩ := Option.map_eq_some_iff.mp hrun
  obtain ⟨hchunks, hlen⟩ := Prod.mk.inj hshown
  refine ⟨s, hs, hchunks, (consoleOutput_displayed _ _ _ s rfl hs ?_).1.mpr hnul⟩
  rw [hlen]
  decide

/-- The guest prints 'h', NUL and 'i': the last two are neither printed nor counted as lost. -/
theorem nul_not_displayed :
    ¬ ∀ (intf : XenconsInterface) (intBuf : Nat → UInt8) (actions : List OutputAction)
      (s : OutputRun), intf.outProd = intf.outCons →
      Machine.run OutputRun.step (OutputRun.start intf intBuf) actions = some s →
      s.sent.length < 2 ^ 64 → s.Displayed := by
  intro h
  have hrun : (Machine.run OutputRun.step atRest (printed [104, 0, 105])).map
      (fun s => (s.chunks, shownOf s.fates, s.sent.length)) =
        some ([[104]], [104, 0, 105], 3) := by
    decide +kernel
  obtain ⟨s, hs, hall⟩ := Option.map_eq_some_iff.mp hrun
  obtain ⟨hchunks, hall⟩ := Prod.mk.inj hall
  obtain ⟨hshown, hlen⟩ := Prod.mk.inj hall
  have hd := (h _ _ _ s rfl hs (by rw [hlen]; decide)).shown
  rw [hchunks, hshown] at hd
  exact absurd hd (by decide)

end OutputRun

end Xenlib
