import Xenlib.DomCreate

/-!
Where `get_dtb_addr` puts the device tree. It is placed 128 MiB above the start of the RAM, at the
end of the RAM or just below the kernel; the second choice compares an address with a size.
-/

set_option autoImplicit false

namespace Xenlib

def mib2 : Nat := 2 * 1024 * 1024

def mib128 : Nat := 128 * 1024 * 1024

/-- `ROUND_UP(n, MB(2))`. -/
def roundedUp (n : Nat) : Nat := (n + (mib2 - 1)) / mib2 * mib2

theorem roundUp2M_toNat {n : UInt64} (h : n.toNat + (mib2 - 1) < 2 ^ 64) :
    (roundUp2M n).toNat = roundedUp n.toNat := by
  have hsum : (n + (megabytes 2 - 1)).toNat = n.toNat + (mib2 - 1) := by
    rw [UInt64.toNat_add]
    exact Nat.mod_eq_of_lt h
  have hle : (n.toNat + (mib2 - 1)) / mib2 * mib2 ≤ n.toNat + (mib2 - 1) := Nat.div_mul_le_self _ _
  rw [roundUp2M, UInt64.toNat_mul, UInt64.toNat_div, hsum]
  exact Nat.mod_eq_of_lt (by
    show (n.toNat + (mib2 - 1)) / mib2 * mib2 < 2 ^ 64
    omega)

/-- The arguments of `get_dtb_addr`: the kernel lies inside the RAM, and no sum of the function
reaches 2 ^ 64. -/
structure DtbInputs (rambase ramsize kernbase kernsize dtbsize : UInt64) : Prop where
  above : rambase.toNat ≤ kernbase.toNat
  inside : kernbase.toNat + kernsize.toNat ≤ rambase.toNat + ramsize.toNat
  ramend : rambase.toNat + ramsize.toNat < 2 ^ 64
  dtbRounded : dtbsize.toNat + (mib2 - 1) < 2 ^ 64
  kernRounded : kernsize.toNat + (mib2 - 1) < 2 ^ 64
  sizes : roundedUp dtbsize.toNat + roundedUp kernsize.toNat < 2 ^ 64
  behind128 : rambase.toNat + mib128 + roundedUp dtbsize.toNat < 2 ^ 64

section Placement
variable {rambase ramsize kernbase kernsize dtbsize : UInt64}

theorem getDtbAddr_toNat (h : DtbInputs rambase ramsize kernbase kernsize dtbsize) :
    (getDtbAddr rambase ramsize kernbase kernsize dtbsize).toNat =
      let modsize := roundedUp dtbsize.toNat
      let ramend := rambase.toNat + ramsize.toNat
      let kernsizeAligned := roundedUp kernsize.toNat
      if modsize + kernsizeAligned > ramsize.toNat then 0
      else if ramend ≥ rambase.toNat + mib128 + modsize ∧
          kernbase.toNat + kernsize.toNat < rambase.toNat + mib128 then rambase.toNat + mib128
      else if ramend - modsize > kernsizeAligned then ramend - modsize
      else if kernbase.toNat - rambase.toNat > modsize then kernbase.toNat - modsize
      else 0 := by
  obtain ⟨habove, hinside, hend, hdtb, hkern, hsizes, h128⟩ := h
  have hmod : (roundUp2M dtbsize).toNat = roundedUp dtbsize.toNat := roundUp2M_toNat hdtb
  have haligned : (roundUp2M kernsize).toNat = roundedUp kernsize.toNat := roundUp2M_toNat hkern
  have hsum : (roundUp2M dtbsize + roundUp2M kernsize).toNat =
      roundedUp dtbsize.toNat + roundedUp kernsize.toNat := by
    rw [UInt64.toNat_add, hmod, haligned, Nat.mod_eq_of_lt hsizes]
  have hramend : (rambase + ramsize).toNat = rambase.toNat + ramsize.toNat := by
    rw [UInt64.toNat_add, Nat.mod_eq_of_lt hend]
  have hram128 : (rambase + megabytes 128).toNat = rambase.toNat + mib128 := by
    rw [UInt64.toNat_add, show (megabytes 128).toNat = mib128 from rfl, Nat.mod_eq_of_lt (by omega)]
  have hbehind : (rambase + megabytes 128 + roundUp2M dtbsize).toNat =
      rambase.toNat + mib128 + roundedUp dtbsize.toNat := by
    rw [UInt64.toNat_add, hram128, hmod, Nat.mod_eq_of_lt h128]
  have hkernend : (kernbase + kernsize).toNat = kernbase.toNat + kernsize.toNat := by
    rw [UInt64.toNat_add, Nat.mod_eq_of_lt (by omega)]
  have hoffset : (kernbase - rambase).toNat = kernbase.toNat - rambase.toNat :=
    UInt64.toNat_sub_of_le _ _ (UInt64.le_iff_toNat_le.mpr habove)
  simp only [getDtbAddr, gt_iff_lt, ge_iff_le, Bool.and_eq_true, decide_eq_true_eq,
    UInt64.lt_iff_toNat_lt, UInt64.le_iff_toNat_le, hsum, hramend, hram128, hbehind, hkernend,
    hoffset, hmod, haligned]
  by_cases hsmall : ramsize.toNat < roundedUp dtbsize.toNat + roundedUp kernsize.toNat
  · rw [if_pos hsmall, if_pos hsmall]
    rfl
  · have hhigh : (rambase + ramsize - roundUp2M dtbsize).toNat =
        rambase.toNat + ramsize.toNat - roundedUp dtbsize.toNat := by
      rw [UInt64.toNat_sub_of_le _ _ (UInt64.le_iff_toNat_le.mpr (by omega)), hramend, hmod]
    have hbelow : roundedUp dtbsize.toNat < kernbase.toNat - rambase.toNat →
        (kernbase - roundUp2M dtbsize).toNat = kernbase.toNat - roundedUp dtbsize.toNat := by
      intro hroom
      rw [UInt64.toNat_sub_of_le _ _ (UInt64.le_iff_toNat_le.mpr (by omega)), hmod]
    rw [if_neg hsmall, if_neg hsmall, hhigh]
    split
    · exact hram128
    · split
      · exact hhigh
      · split
        · exact hbelow ‹_›
        · rfl

/-- The range of the device tree lies in the RAM and apart from the kernel. -/
structure DtbPlaced (rambase ramsize kernbase kernsize dtbsize addr : UInt64) : Prop where
  lower : rambase.toNat ≤ addr.toNat
  upper : addr.toNat + roundedUp dtbsize.toNat ≤ rambase.toNat + ramsize.toNat
  apart : ∀ x, addr.toNat ≤ x → x < addr.toNat + roundedUp dtbsize.toNat →
    ¬ (kernbase.toNat ≤ x ∧ x < kernbase.toNat + kernsize.toNat)

/-- The end of the RAM is not taken for the device tree, or the kernel leaves it free: the RAM is
too small, the place at 128 MiB is used, the comparison with the rounded kernel size fails, one of
the two is empty, or the kernel ends before the place. -/
def EndFree (rambase ramsize kernbase kernsize dtbsize : UInt64) : Prop :=
  let modsize := roundedUp dtbsize.toNat
  let ramend := rambase.toNat + ramsize.toNat
  let kernend := kernbase.toNat + kernsize.toNat
  ramsize.toNat < modsize + roundedUp kernsize.toNat ∨
    rambase.toNat + mib128 + modsize ≤ ramend ∧ kernend < rambase.toNat + mib128 ∨
    ramend - modsize ≤ roundedUp kernsize.toNat ∨
    dtbsize = 0 ∨ kernsize = 0 ∨ kernend ≤ ramend - modsize

theorem roundedUp_pos {n : UInt64} (h : n ≠ 0) : 0 < roundedUp n.toNat := by
  have hpos : 0 < n.toNat := Nat.pos_of_ne_zero fun h0 => h (UInt64.toNat.inj h0)
  unfold roundedUp mib2
  omega

/-- The device tree is placed in the RAM and apart from the kernel, if anywhere, exactly when the
end of the RAM is free or not used. -/
theorem dtbPlaced_iff (h : DtbInputs rambase ramsize kernbase kernsize dtbsize) :
    (getDtbAddr rambase ramsize kernbase kernsize dtbsize ≠ 0 →
      DtbPlaced rambase ramsize kernbase kernsize dtbsize
        (getDtbAddr rambase ramsize kernbase kernsize dtbsize)) ↔
      EndFree rambase ramsize kernbase kernsize dtbsize := by
  have haddr := getDtbAddr_toNat h
  obtain ⟨habove, hinside, hend, hdtb, hkern, hsizes, h128⟩ := h
  generalize getDtbAddr rambase ramsize kernbase kernsize dtbsize = addr at haddr ⊢
  constructor
  · intro hplaced
    by_contra hno
    simp only [EndFree, not_or, not_and, not_lt, not_le] at hno
    obtain ⟨hroom, hfirst, hsecond, hd, hk, hover⟩ := hno
    have hdpos := roundedUp_pos hd
    have hkpos : 0 < kernsize.toNat := Nat.pos_of_ne_zero fun h0 => hk (UInt64.toNat.inj h0)
    simp only at haddr
    rw [if_neg (by omega), if_neg (by omega), if_pos (by omega)] at haddr
    have hne : addr ≠ 0 := by
      rintro rfl
      rw [UInt64.toNat_zero] at haddr
      omega
    obtain ⟨-, -, hapart⟩ := hplaced hne
    -- the later of the two starts is in both ranges
    exact hapart (max addr.toNat kernbase.toNat) (by omega) (by omega) (by omega)
  · intro hfree hne
    have hpos : 0 < addr.toNat := Nat.pos_of_ne_zero fun h0 => hne (UInt64.toNat.inj h0)
    simp only [EndFree] at hfree
    simp only at haddr
    split at haddr
    · omega
    · split at haddr
      · exact ⟨by omega, by omega, fun x _ _ => by omega⟩
      · split at haddr
        · refine ⟨by omega, by omega, fun x hx hlt => ?_⟩
          rcases hfree with hfree | hfree | hfree | hnone | hnone | hfree
          · omega
          · omega
          · omega
          · rw [hnone, show roundedUp (0 : UInt64).toNat = 0 from rfl] at hlt
            omega
          · rw [hnone, UInt64.toNat_zero]
            omega
          · omega
        · split at haddr
          · exact ⟨by omega, by omega, fun x _ _ => by omega⟩
          · omega

end Placement

/-- A kernel of 1 MiB at the start of 256 MiB of RAM. -/
theorem dtbPlaced_128mb : DtbPlaced 0x40000000 0x10000000 0x40000000 0x100000 0x4000
    (getDtbAddr 0x40000000 0x10000000 0x40000000 0x100000 0x4000) :=
  (dtbPlaced_iff ⟨by decide, by decide, by decide, by decide, by decide, by decide,
    by decide⟩).mpr (.inr (.inl (by decide))) (by decide)

/-- In 8 MiB of RAM a kernel of 4 MiB at an offset of 4 MiB is written over the device tree. -/
theorem dtb_overwritten :
    ¬ ∀ rambase ramsize kernbase kernsize dtbsize : UInt64,
      DtbInputs rambase ramsize kernbase kernsize dtbsize →
      getDtbAddr rambase ramsize kernbase kernsize dtbsize ≠ 0 →
      DtbPlaced rambase ramsize kernbase kernsize dtbsize
        (getDtbAddr rambase ramsize kernbase kernsize dtbsize) := by
  intro h
  have hplaced := h 0x40000000 0x800000 0x40400000 0x400000 0x4000
    ⟨by decide, by decide, by decide, by decide, by decide, by decide, by decide⟩ (by decide)
  exact hplaced.apart 0x40600000 (by decide) (by decide) (by decide)

end Xenlib
