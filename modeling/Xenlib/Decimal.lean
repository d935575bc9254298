import Xenlib.Components

/-!
Numbers as `snprintf` writes them and `strtoul` reads them.
-/

set_option autoImplicit false

namespace Xenlib

theorem toDigits_bytes {n : Nat} {c : Char} (h : c ∈ Nat.toDigits 10 n) :
    48 ≤ c.toNat ∧ c.toNat ≤ 57 := by
  have hdigit := Nat.isDigit_of_mem_toDigits (by decide) (by decide) h
  rw [Char.isDigit_iff_toNat] at hdigit
  exact hdigit

theorem ascii_cons {c : Char} {cs : List Char} (h : UInt8.ofNat c.toNat ≠ 0) :
    ascii (c :: cs) = ⟨UInt8.ofNat c.toNat, h⟩ :: ascii cs := by
  simp [ascii, h]

theorem digit_byte {c : Char} (h : 48 ≤ c.toNat ∧ c.toNat ≤ 57) :
    UInt8.ofNat c.toNat ≠ 0 ∧ (UInt8.ofNat c.toNat).toNat = c.toNat := by
  have hval : (UInt8.ofNat c.toNat).toNat = c.toNat := by
    rw [UInt8.toNat_ofNat']
    omega
  refine ⟨fun hz => ?_, hval⟩
  rw [hz] at hval
  simp at hval
  omega

theorem length_ascii_digits (cs : List Char) (h : ∀ c ∈ cs, 48 ≤ c.toNat ∧ c.toNat ≤ 57) :
    (ascii cs).length = cs.length := by
  induction cs with
  | nil => rfl
  | cons c cs ih =>
    rw [ascii_cons (digit_byte (h c List.mem_cons_self)).1, List.length_cons, List.length_cons,
      ih fun d hd => h d (List.mem_cons_of_mem _ hd)]

theorem decimal_length_le {n k : Nat} (hk : 0 < k) (h : n < 10 ^ k) : (decimal n).length ≤ k := by
  rw [decimal, length_ascii_digits _ fun c hc => toDigits_bytes hc]
  exact (Nat.length_toDigits_le_iff (by decide) hk).mpr h

theorem decimal_isDigit {n : Nat} {c : CChar} (h : c ∈ decimal n) : isDigit c = true := by
  obtain ⟨d, hd, heq⟩ := List.mem_filterMap.mp h
  obtain ⟨hne, hval⟩ := digit_byte (toDigits_bytes hd)
  rw [dif_pos hne] at heq
  have hc : c.val.toNat = d.toNat := by
    rw [← Option.some.inj heq]
    exact hval
  have hrange := toDigits_bytes hd
  simp only [isDigit, Bool.and_eq_true, decide_eq_true_eq, UInt8.le_iff_toNat_le]
  constructor
  · rw [hc]
    exact hrange.1
  · rw [hc]
    exact hrange.2

theorem foldl_digits (cs : List Char) (h : ∀ c ∈ cs, 48 ≤ c.toNat ∧ c.toNat ≤ 57) (n : Nat) :
    (ascii cs).foldl (fun n d => 10 * n + (d.val.toNat - 48)) n = Nat.ofDigitChars 10 cs n := by
  induction cs generalizing n with
  | nil => rfl
  | cons c cs ih =>
    obtain ⟨hne, hval⟩ := digit_byte (h c List.mem_cons_self)
    rw [ascii_cons hne, List.foldl_cons, ih fun d hd => h d (List.mem_cons_of_mem _ hd), hval]
    rfl

theorem digitsValue_decimal (n : Nat) : digitsValue (decimal n) = n := by
  rw [digitsValue, decimal, foldl_digits _ fun c hc => toDigits_bytes hc,
    Nat.ofDigitChars_ten_toDigits]

theorem decimal_injective {n m : Nat} (h : decimal n = decimal m) : n = m := by
  rw [← digitsValue_decimal n, h, digitsValue_decimal]

theorem ascii_minus_ne_decimal (n m : Nat) : decimal n ≠ ascii ['-'] ++ decimal m := by
  intro h
  have hmem : (⟨45, by decide⟩ : CChar) ∈ decimal n := by
    rw [h]
    exact List.mem_append_left _ (by decide)
  exact absurd (decimal_isDigit hmem) (by decide)

theorem decimalInt_injective {n m : UInt32} (h : decimalInt n = decimalInt m) : n = m := by
  have hn := n.toNat_lt
  have hm := m.toNat_lt
  rw [← UInt32.toNat_inj]
  unfold decimalInt at h
  split at h <;> split at h
  · exact decimal_injective h
  · exact absurd h (ascii_minus_ne_decimal _ _)
  · exact absurd h.symm (ascii_minus_ne_decimal _ _)
  · have hval := decimal_injective (List.append_cancel_left h)
    omega

theorem decimalInt_length_le (n : UInt32) : (decimalInt n).length ≤ 11 := by
  have hn := n.toNat_lt
  unfold decimalInt
  split
  · exact (decimal_length_le (k := 10) (by decide) (by omega)).trans (by decide)
  · have hlen := @decimal_length_le (2 ^ 32 - n.toNat) 10 (by decide) (by omega)
    have hminus : (ascii ['-']).length = 1 := by decide
    rw [List.length_append, hminus]
    omega

end Xenlib
