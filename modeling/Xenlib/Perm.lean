import Xenlib.CString
import Xenlib.Lib.Wp

/-!
Access rights and their wire form (`xenstore_common.c`), and the allocator.
-/

set_option autoImplicit false

namespace Xenlib

inductive XsPerm where
  | none | read | write | both
  deriving DecidableEq, Repr

def XsPerm.bits : XsPerm → Nat
  | .none => 0
  | .read => 1
  | .write => 2
  | .both => 3

/-- `(granted & asked) == asked`. -/
def XsPerm.allows (granted asked : XsPerm) : Bool := granted.bits &&& asked.bits == asked.bits

theorem XsPerm.allows_none (granted : XsPerm) : granted.allows .none = true := by
  cases granted <;> rfl

structure XsPermEntry where
  domid : UInt16
  perm : XsPerm
  deriving DecidableEq, Repr

def xenstorePermToWire : XsPerm → CChar
  | .write => ⟨119, by decide⟩
  | .read => ⟨114, by decide⟩
  | .both => ⟨98, by decide⟩
  | .none => ⟨110, by decide⟩

def xenstorePermFromWire (wire : CChar) : Except Errno XsPerm :=
  if wire.val = 119 then .ok .write
  else if wire.val = 114 then .ok .read
  else if wire.val = 98 then .ok .both
  else if wire.val = 110 then .ok .none
  else .error .einval

theorem permFromWire_toWire (p : XsPerm) :
    xenstorePermFromWire (xenstorePermToWire p) = .ok p := by cases p <;> rfl

structure Strtoul where
  value : Nat
  rest : CString
  converted : Bool
  erange : Bool

def isSpace (c : CChar) : Bool := c.val = 32 || (9 ≤ c.val && c.val ≤ 13)

def isDigit (c : CChar) : Bool := 48 ≤ c.val && c.val ≤ 57

def digitsValue (ds : CString) : Nat := ds.foldl (fun n d => 10 * n + (d.val.toNat - 48)) 0

def strtoul (s : CString) : Strtoul :=
  let body := s.dropWhile isSpace
  let negative := body.head?.any fun c => c.val = 45
  let signed := body.head?.any fun c => c.val = 45 || c.val = 43
  let number := if signed then body.drop 1 else body
  let ds := number.takeWhile isDigit
  let v := digitsValue ds
  if ds = [] then ⟨0, s, false, false⟩
  else if 2 ^ 64 ≤ v then ⟨2 ^ 64 - 1, number.dropWhile isDigit, true, true⟩
  else ⟨if negative then (2 ^ 64 - v) % 2 ^ 64 else v, number.dropWhile isDigit, true, false⟩

def domidMask : Nat := 0x7FFF

def strHead : Bytes → CString
  | [] => []
  | b :: bs => if h : b = 0 then [] else ⟨b, h⟩ :: strHead bs

/-- One entry of a permission payload, such as "r1". -/
def permParseEntry : CString → Except Errno XsPermEntry
  | [] => .error .eproto
  | wire :: digits =>
    match xenstorePermFromWire wire with
    | .error e => .error e
    | .ok perm =>
      let r := strtoul digits
      if !r.converted || r.rest ≠ [] || r.erange || r.value &&& domidMask ≠ r.value then
        .error .eproto
      else .ok ⟨UInt16.ofNat r.value, perm⟩

/-- The loop of `xenstore_perm_parse_wire` over the bytes from `off` on, which are at most
`fuel`. `permsNum` is the room in the destination, absent when entries are only counted. -/
def permParseLoop (permsNum : Option Nat) : Nat → Nat → Bytes → Except Errno (List XsPermEntry)
  | 0, _, _ => .ok []
  | fuel + 1, copied, raw =>
    if raw = [] then .ok []
    else if strnlen raw = raw.length || strnlen raw < 2 then .error .eproto
    else if permsNum.any (· ≤ copied) then .error .enospc
    else match permParseEntry (strHead raw) with
      | .error e => .error e
      | .ok p =>
        match permParseLoop permsNum fuel (copied + 1) (raw.drop (strnlen raw + 1)) with
        | .error e => .error e
        | .ok ps => .ok (p :: ps)

def xenstorePermParseWire (raw : Bytes) (permsNum : Option Nat) :
    Except Errno (List XsPermEntry) :=
  permParseLoop permsNum raw.length 0 raw

/-- Parsing into an array of the counted size gives the counted entries. -/
theorem permParseLoop_room (fuel copied : Nat) (raw : Bytes) (ps : List XsPermEntry) (n : Nat)
    (h : permParseLoop none fuel copied raw = .ok ps) (hn : copied + ps.length ≤ n) :
    permParseLoop (some n) fuel copied raw = .ok ps := by
  induction fuel generalizing copied raw ps with
  | zero => exact h
  | succ fuel ih =>
    unfold permParseLoop at h ⊢
    by_cases hraw : raw = []
    · simpa [hraw] using h
    by_cases hlen : (strnlen raw = raw.length || decide (strnlen raw < 2)) = true
    · rw [if_neg hraw, if_pos hlen] at h
      cases h
    simp only [hraw, hlen, if_false, Option.any_none, Bool.false_eq_true] at h ⊢
    cases he : permParseEntry (strHead raw) with
    | error e => simp [he] at h
    | ok p =>
      cases hr : permParseLoop none fuel (copied + 1) (raw.drop (strnlen raw + 1)) with
      | error e => simp [he, hr] at h
      | ok rest =>
        simp only [he, hr, Except.ok.injEq] at h
        subst h
        simp only [List.length_cons] at hn
        have hroom : ¬ n ≤ copied := by omega
        simp [hroom, ih (copied + 1) _ rest hr (by omega)]

theorem permParseWire_room {raw : Bytes} {ps : List XsPermEntry}
    (h : xenstorePermParseWire raw none = .ok ps) :
    xenstorePermParseWire raw (some ps.length) = .ok ps :=
  permParseLoop_room raw.length 0 raw ps ps.length h (by omega)

/-- The state lists the outcomes of the allocations to come. Once the list is used up every
allocation succeeds, so `[]` is a heap that never runs out. -/
abbrev AllocM := Wp.Prog (List Bool) Fault

def kMalloc : AllocM Bool := fun allocs =>
  match allocs with
  | [] => .ok (true, [])
  | b :: bs => .ok (b, bs)

/-- A loop of `n` allocations that stops at the first failure. -/
def kMallocs : Nat → AllocM Bool
  | 0 => pure true
  | n + 1 => do
    if ← kMalloc then kMallocs n else pure false

@[simp] theorem kMalloc_nil : kMalloc [] = .ok (true, []) := rfl

/-- `rest` is what is left of the outcomes `allocs`, and a failure was among them. -/
structure Drawn (allocs : List Bool) (b : Bool) (rest : List Bool) : Prop where
  suffix : rest <:+ allocs
  fail : b = false → false ∈ allocs

theorem wp_kMalloc_drawn {Q : Bool → List Bool → Prop} {E : Fault → Prop} {allocs : List Bool}
    (h : ∀ b rest, Drawn allocs b rest → Q b rest) : Wp.wp kMalloc Q E allocs := by
  cases allocs with
  | nil => exact h true [] ⟨List.suffix_rfl, fun hb => by cases hb⟩
  | cons b bs => exact h b bs ⟨List.suffix_cons b bs, fun hb => by simp [hb]⟩

theorem wp_kMallocs_drawn {Q : Bool → List Bool → Prop} {E : Fault → Prop} {allocs : List Bool}
    (n : Nat) (h : ∀ b rest, Drawn allocs b rest → Q b rest) : Wp.wp (kMallocs n) Q E allocs := by
  induction n generalizing allocs with
  | zero => exact h true allocs ⟨List.suffix_rfl, fun hb => by cases hb⟩
  | succ n ih =>
    unfold kMallocs
    rw [Wp.wp_bind]
    refine wp_kMalloc_drawn fun b rest hd => ?_
    cases b with
    | true =>
      refine ih fun b' rest' hd' => h b' rest' ⟨hd'.suffix.trans hd.suffix, fun hb => ?_⟩
      exact hd.suffix.subset (hd'.fail hb)
    | false => exact h false rest hd

end Xenlib
