import Mathlib.Algebra.Group.Nat.Defs
import Mathlib.Data.List.Basic
import Mathlib.Data.List.Infix
import Mathlib.Tactic.Common

/-!
Bytes, C strings and the return codes of the server. A C string is the list of the
characters before its terminating NUL, so no value of `CString` can hold a NUL.
-/

set_option autoImplicit false

namespace Xenlib

abbrev Bytes := List UInt8

abbrev CChar := { b : UInt8 // b ≠ 0 }

abbrev CString := List CChar

/-- What stops the server: a use of memory that C leaves undefined, or a failed assertion. -/
inductive Fault where
  | emptyPerms
  | nullEntry
  | nullInput
  | outOfBounds
  | unmappedRing
  | assertion
  /-- A node that is in no list is taken off its list. -/
  | unlinkedNode
  deriving DecidableEq, Repr

inductive Errno where
  | einval | eacces | eexist | eisdir | enoent | enomem | enospc | eio | enotempty | enosys
  | erofs | ebusy | eagain | eisconn | e2big | eperm | eproto | etimedout | enotsup
  deriving DecidableEq, Repr

def ascii (cs : List Char) : CString :=
  cs.filterMap fun c => if h : UInt8.ofNat c.toNat ≠ 0 then some ⟨UInt8.ofNat c.toNat, h⟩ else none

def slash : CChar := ⟨47, by decide⟩

/-- The bytes of a string in memory, with its NUL. -/
def strBytes (s : CString) : Bytes := s.map Subtype.val ++ [0]

theorem strBytes_cons (c : CChar) (s : CString) : strBytes (c :: s) = c.val :: strBytes s := rfl

@[simp] theorem strBytes_length (s : CString) : (strBytes s).length = s.length + 1 := by
  simp [strBytes]

/-- The string that starts at a pointer into a block of memory. A block without a NUL is
read past its end. -/
def readStr : Bytes → Except Fault CString
  | [] => .error .outOfBounds
  | b :: bs =>
    if h : b = 0 then .ok []
    else match readStr bs with
      | .ok s => .ok (⟨b, h⟩ :: s)
      | .error e => .error e

def strnlen (mem : Bytes) : Nat := (mem.takeWhile (· ≠ 0)).length

theorem readStr_strBytes (s : CString) (tail : Bytes) :
    readStr (strBytes s ++ tail) = .ok s := by
  induction s with
  | nil => rfl
  | cons c s ih =>
    rw [strBytes_cons, List.cons_append, readStr, dif_neg c.property, ih]

theorem readStr_terminated (s : CString) : readStr (strBytes s) = .ok s := by
  simpa using readStr_strBytes s []

theorem strnlen_strBytes (s : CString) (tail : Bytes) :
    strnlen (strBytes s ++ tail) = s.length := by
  induction s with
  | nil => rfl
  | cons c s ih =>
    have hc : ¬ c.val = 0 := c.property
    have hs : strnlen (strBytes (c :: s) ++ tail) = strnlen (strBytes s ++ tail) + 1 := by
      simp [strBytes_cons, strnlen, hc]
    rw [hs, ih, List.length_cons]

/-- A string is found exactly when the block holds a NUL, and the block starts with it. -/
theorem readStr_ok {mem : Bytes} {s : CString} (h : readStr mem = .ok s) :
    ∃ tail, mem = strBytes s ++ tail := by
  induction mem generalizing s with
  | nil => simp [readStr] at h
  | cons b bs ih =>
    by_cases hb : b = 0
    · simp only [readStr, hb, dif_pos, Except.ok.injEq] at h
      subst h hb
      exact ⟨bs, rfl⟩
    · cases hr : readStr bs with
      | error e => simp [readStr, hb, hr] at h
      | ok t =>
        simp only [readStr, hb, dif_neg, not_false_iff, hr, Except.ok.injEq] at h
        obtain ⟨tail, ht⟩ := ih hr
        subst h
        exact ⟨tail, by rw [strBytes_cons, List.cons_append, ht]⟩

theorem readStr_fault {mem : Bytes} {e : Fault} (h : readStr mem = .error e) :
    e = .outOfBounds := by
  induction mem with
  | nil => cases h; rfl
  | cons b bs ih =>
    by_cases hb : b = 0
    · simp [readStr, hb] at h
    · cases hr : readStr bs with
      | error e' =>
        simp only [readStr, hb, dif_neg, not_false_iff, hr, Except.error.injEq] at h
        exact ih (h ▸ hr)
      | ok s => simp [readStr, hb, hr] at h

theorem readStr_of_mem {mem : Bytes} (h : (0 : UInt8) ∈ mem) : ∃ s, readStr mem = .ok s := by
  induction mem with
  | nil => cases h
  | cons b bs ih =>
    by_cases hb : b = 0
    · exact ⟨[], by simp [readStr, hb]⟩
    · have hbs : (0 : UInt8) ∈ bs := by
        rcases List.mem_cons.mp h with h | h
        · exact absurd h.symm hb
        · exact h
      obtain ⟨s, hs⟩ := ih hbs
      exact ⟨⟨b, hb⟩ :: s, by simp [readStr, hb, hs]⟩

def strtokR (s : CString) : Option (CString × CString) :=
  match s.dropWhile (· = slash) with
  | [] => none
  | c :: cs => some ((c :: cs).takeWhile (· ≠ slash), ((c :: cs).dropWhile (· ≠ slash)).drop 1)

def tokensFrom (tok : CString) : CString → List CString
  | [] => if tok = [] then [] else [tok]
  | c :: cs =>
    if c = slash then
      if tok = [] then tokensFrom [] cs else tok :: tokensFrom [] cs
    else tokensFrom (tok ++ [c]) cs

def tokens (s : CString) : List CString := tokensFrom [] s

theorem tokensFrom_of_ne_nil (tok s : CString) (h : tok ≠ []) :
    tokensFrom tok s =
      (tok ++ s.takeWhile (· ≠ slash)) :: tokens ((s.dropWhile (· ≠ slash)).drop 1) := by
  induction s generalizing tok with
  | nil => simp [tokensFrom, h, tokens]
  | cons c cs ih =>
    by_cases hc : c = slash
    · simp [tokensFrom, hc, h, tokens]
    · simp [tokensFrom, hc, ih (tok ++ [c]) (by simp)]

/-- The token list is what repeated calls of `strtok_r` return. -/
theorem tokens_eq (s : CString) :
    tokens s = match strtokR s with
      | none => []
      | some (tok, rest) => tok :: tokens rest := by
  induction s with
  | nil => rfl
  | cons c cs ih =>
    by_cases hc : c = slash
    · have h1 : tokens (c :: cs) = tokens cs := by simp [tokens, tokensFrom, hc]
      have h2 : strtokR (c :: cs) = strtokR cs := by simp [strtokR, hc]
      rw [h1, h2, ih]
    · simp [tokens, tokensFrom, strtokR, hc, tokensFrom_of_ne_nil [c] cs (by simp)]

theorem tokensFrom_spec (tok s : CString) (htok : slash ∉ tok) :
    ∀ t ∈ tokensFrom tok s, t ≠ [] ∧ slash ∉ t := by
  induction s generalizing tok with
  | nil =>
    intro t ht
    by_cases h : tok = []
    · simp [tokensFrom, h] at ht
    · simp only [tokensFrom, h, if_false, List.mem_singleton] at ht
      subst ht
      exact ⟨h, htok⟩
  | cons c cs ih =>
    intro t ht
    by_cases hc : c = slash
    · by_cases h : tok = []
      · simp only [tokensFrom, hc, h, if_true] at ht
        exact ih [] (by simp) t ht
      · simp only [tokensFrom, hc, h, if_true, if_false, List.mem_cons] at ht
        rcases ht with rfl | ht
        · exact ⟨h, htok⟩
        · exact ih [] (by simp) t ht
    · simp only [tokensFrom, hc, if_false] at ht
      exact ih (tok ++ [c]) (by simp [htok, Ne.symm hc]) t ht

theorem tokens_spec {s t : CString} (h : t ∈ tokens s) : t ≠ [] ∧ slash ∉ t :=
  tokensFrom_spec [] s (by simp) t h

def xenstoreIsAbsPath (path : CString) : Bool := path.head? = some slash

def xenstoreIsRootPath (path : CString) : Bool := xenstoreIsAbsPath path && path.length = 1

/-- The size of a string with its NUL; 0 for a NULL pointer. -/
def xenstoreStrByteSize : Option CString → Nat
  | none => 0
  | some s => s.length + 1

theorem xenstoreIsRootPath_iff (path : CString) :
    xenstoreIsRootPath path = true ↔ path = [slash] := by
  cases path with
  | nil => simp [xenstoreIsRootPath, xenstoreIsAbsPath]
  | cons c cs => cases cs <;> simp [xenstoreIsRootPath, xenstoreIsAbsPath]

/-- `%u`. -/
def decimal (n : Nat) : CString := ascii (Nat.toDigits 10 n)

/-- `%d` of a 32-bit value. -/
def decimalInt (n : UInt32) : CString :=
  if n.toNat < 2 ^ 31 then decimal n.toNat else ascii ['-'] ++ decimal (2 ^ 32 - n.toNat)

/-- "/local/domain/%d/". -/
def localDomainPath (domid : UInt32) : CString :=
  ascii ['/', 'l', 'o', 'c', 'a', 'l', '/', 'd', 'o', 'm', 'a', 'i', 'n', '/'] ++
    decimalInt domid ++ [slash]

end Xenlib
