import Mathlib.Algebra.Order.Ring.Nat
import Mathlib.Data.UInt
import Xenlib.Lib.Span

/-!
Numbers as bytes, the most significant one first, and tables of such numbers.
-/

set_option autoImplicit false

namespace BigEndian

open Span

def bytes : (width n : Nat) → List UInt8
  | 0, _ => []
  | width + 1, n => bytes width (n / 256) ++ [UInt8.ofNat n]

def value (bs : List UInt8) : Nat := bs.foldl (fun n b => n * 256 + b.toNat) 0

@[simp] theorem bytes_length (width n : Nat) : (bytes width n).length = width := by
  induction width generalizing n with
  | zero => rfl
  | succ width ih => simp [bytes, ih]

theorem value_append (bs : List UInt8) (b : UInt8) :
    value (bs ++ [b]) = value bs * 256 + b.toNat := by
  simp [value]

theorem value_bytes (width n : Nat) : value (bytes width n) = n % 256 ^ width := by
  induction width generalizing n with
  | zero => simp [bytes, value, Nat.mod_one]
  | succ width ih =>
    have hlow : (UInt8.ofNat n).toNat = n % 256 := UInt8.toNat_ofNat'
    rw [bytes, value_append, ih, hlow, Nat.pow_succ', Nat.mod_mul]
    omega

theorem value_lt (bs : List UInt8) : value bs < 256 ^ bs.length := by
  induction bs using List.reverseRecOn with
  | nil => simp [value]
  | append_singleton bs b ih =>
    have hb := b.toNat_lt
    rw [value_append, List.length_append, List.length_singleton, Nat.pow_succ]
    omega

def table (width : Nat) (ns : List Nat) : List UInt8 := ns.flatMap (bytes width)

variable {width i : Nat} {ns : List Nat} {rest : List UInt8}

@[simp] theorem table_length (width : Nat) (ns : List Nat) :
    (table width ns).length = width * ns.length := by
  induction ns with
  | nil => simp [table]
  | cons n ns ih =>
    simp only [table, List.flatMap_cons, List.length_append, bytes_length, List.length_cons] at ih ⊢
    rw [ih, Nat.mul_succ, Nat.add_comm]

theorem table_append (ms ns : List Nat) :
    table width (ms ++ ns) = table width ms ++ table width ns := by
  simp [table]

theorem table_split (h : i < ns.length) :
    table width ns =
      table width (ns.take i) ++ (bytes width ns[i] ++ table width (ns.drop (i + 1))) := by
  have hdrop : table width (ns.drop i) = bytes width ns[i] ++ table width (ns.drop (i + 1)) := by
    rw [List.drop_eq_getElem_cons h, table, List.flatMap_cons]
    rfl
  rw [← hdrop, ← table_append, List.take_append_drop]

theorem slice_table (h : i < ns.length) :
    slice (table width ns ++ rest) (width * i) width = bytes width ns[i] := by
  rw [table_split h, List.append_assoc, List.append_assoc]
  exact slice_append (by rw [table_length, List.length_take_of_le (by omega)]) (by simp)

theorem patch_table (h : i < ns.length) (v : Nat) :
    patch (table width ns ++ rest) (width * i) (bytes width v) =
      table width (ns.set i v) ++ rest := by
  have hset : table width (ns.set i v) =
      table width (ns.take i) ++ (bytes width v ++ table width (ns.drop (i + 1))) := by
    rw [List.set_eq_take_append_cons_drop, if_pos h, table_append]
    simp [table]
  rw [table_split h, hset, List.append_assoc, List.append_assoc, List.append_assoc,
    List.append_assoc]
  exact patch_append (by rw [table_length, List.length_take_of_le (by omega)]) (by simp)

end BigEndian
