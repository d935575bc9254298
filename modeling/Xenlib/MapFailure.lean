import Xenlib.MemMgmt

/-!
What a failed `xenmem_map_region` leaves behind. The block is given back whole, but the
frames that the error path takes out are those at the caller's pointer variable, as many as
the add loop reported.
-/

set_option autoImplicit false

namespace Xenlib

def PhysMap.removeRange (pm : PhysMap) (basePfn count : Nat) : PhysMap :=
  fun p => if basePfn ≤ p ∧ p < basePfn + count then .empty else pm p

@[simp] theorem PhysMap.removeRange_zero (pm : PhysMap) (basePfn : Nat) :
    pm.removeRange basePfn 0 = pm := by
  funext p
  exact if_neg (by omega)

theorem PhysMap.removeRange_succ (pm : PhysMap) (basePfn count : Nat) :
    (pm.removeRange basePfn count).remove (basePfn + count) =
      pm.removeRange basePfn (count + 1) := by
  funext p
  by_cases hp : p = basePfn + count
  · subst hp
    simp [PhysMap.remove, PhysMap.removeRange]
  · have hsame : (basePfn ≤ p ∧ p < basePfn + count) ↔
        (basePfn ≤ p ∧ p < basePfn + (count + 1)) := by
      omega
    simp only [PhysMap.remove, PhysMap.removeRange, Function.update_of_ne hp, hsame]

theorem regionSpaceRemoveLoop_spec (rc : Nat → Int) (basePfn left i : Nat) (pm : PhysMap) :
    ∃ n, i ≤ n ∧ n ≤ i + left ∧ (n < i + left ↔ ∃ j, i ≤ j ∧ j < i + left ∧ rc j < 0) ∧
      regionSpaceRemoveLoop rc basePfn left i (pm.removeRange basePfn i) =
        (n, pm.removeRange basePfn n) := by
  induction left generalizing i with
  | zero => exact ⟨i, by omega, by omega, ⟨by omega, by rintro ⟨j, h1, h2, -⟩; omega⟩, rfl⟩
  | succ left ih =>
    by_cases hrc : rc i < 0
    · exact ⟨i, by omega, by omega, ⟨fun _ => ⟨i, by omega, by omega, hrc⟩, fun _ => by omega⟩,
        by simp [regionSpaceRemoveLoop, hrc]⟩
    · obtain ⟨n, hge, hle, hiff, hloop⟩ := ih (i + 1)
      refine ⟨n, by omega, by omega, ?_, ?_⟩
      · rw [show i + (left + 1) = i + 1 + left by omega, hiff]
        constructor
        · rintro ⟨j, h1, h2, hj⟩
          exact ⟨j, by omega, h2, hj⟩
        · rintro ⟨j, h1, h2, hj⟩
          have hne : j ≠ i := by
            rintro rfl
            exact hrc hj
          exact ⟨j, by omega, h2, hj⟩
      · simp only [regionSpaceRemoveLoop, hrc, if_false, PhysMap.removeRange_succ]
        exact hloop

theorem regionSpaceRemove_spec (rc : Nat → Int) (basePfn nrPages : Nat) (pm : PhysMap) :
    ∃ n, n ≤ nrPages ∧ (n < nrPages ↔ ∃ j < nrPages, rc j < 0) ∧
      regionSpaceRemove rc basePfn nrPages pm = (n, pm.removeRange basePfn n) := by
  obtain ⟨n, -, hle, hiff, hloop⟩ := regionSpaceRemoveLoop_spec rc basePfn nrPages 0 pm
  rw [PhysMap.removeRange_zero] at hloop
  refine ⟨n, by omega, ?_, hloop⟩
  simpa using hiff

theorem PhysMap.populate_zero (pm : PhysMap) (basePfn shift : Nat) :
    pm.populate basePfn shift 0 = pm := by
  funext p
  exact if_neg (by omega)

section

variable {chunk : Nat} {calls : MemCalls}

theorem PhysMap.populate_populate (pm : PhysMap) (basePfn shift m n : Nat) :
    (pm.populate basePfn shift m).populate (basePfn + m * 2 ^ shift) shift n =
      pm.populate basePfn shift (m + n) := by
  funext p
  simp only [PhysMap.populate, Nat.add_mul]
  by_cases hp : basePfn + m * 2 ^ shift ≤ p ∧ p < basePfn + m * 2 ^ shift + n * 2 ^ shift
  · rw [if_pos hp, if_pos (by omega)]
  · rw [if_neg hp]
    split <;> split <;> first | rfl | omega

theorem populateLoop_all {shift nrPages : Nat} (hpos : 0 < chunk)
    (hchunk : chunk * 2 ^ shift < 2 ^ 32) (hnr : nrPages < 2 ^ 64)
    (hall : ∀ k n, calls.populateRet k n = n) {fuel : Nat} {i : Nat}
    (hi : i ≤ nrPages) (hfuel : nrPages - i ≤ fuel) (k basePfn : Nat) (pm : PhysMap) :
    populateLoop chunk calls shift nrPages fuel k i basePfn pm =
      (nrPages, pm.populate basePfn shift (nrPages - i)) := by
  induction fuel generalizing i k basePfn pm with
  | zero =>
    have hend : i = nrPages := by omega
    simp [populateLoop, hend, PhysMap.populate_zero]
  | succ fuel ih =>
    by_cases hlt : i < nrPages
    · generalize hiter : min (nrPages - i) chunk = iter
      have hnext : (((i : Int) + (iter : Nat)) % 2 ^ 64).toNat = i + iter := by omega
      have hstep : (iter <<< shift) % 2 ^ 32 = iter * 2 ^ shift := by
        rw [Nat.shiftLeft_eq]
        have hle : iter * 2 ^ shift ≤ chunk * 2 ^ shift := Nat.mul_le_mul_right _ (by omega)
        exact Nat.mod_eq_of_lt (by omega)
      simp only [populateLoop, if_pos hlt, hiter, hall, ne_eq, not_true_eq_false, if_false, hnext,
        hstep, Int.toNat_natCast]
      -- the batch and the rest are one range
      rw [ih (by omega) (by omega), PhysMap.populate_populate,
        show iter + (nrPages - (i + iter)) = nrPages - i by omega]
    · have hend : i = nrPages := by omega
      simp [populateLoop, hend, PhysMap.populate_zero]

theorem xenmemPopulatePhysmap_all {shift nrPages : Nat} (hpos : 0 < chunk)
    (hchunk : chunk * 2 ^ shift < 2 ^ 32) (hnr : nrPages < 2 ^ 64)
    (hall : ∀ k n, calls.populateRet k n = n) (basePfn : Nat) (pm : PhysMap) :
    xenmemPopulatePhysmap chunk calls basePfn shift nrPages pm =
      (nrPages, pm.populate basePfn shift nrPages) :=
  populateLoop_all hpos hchunk hnr hall (Nat.zero_le _) (by omega) 0 basePfn pm

theorem addToPhysmapLoop_outside (domid nrPages fuel k i basePfn baseGfn : Nat) (pm : PhysMap)
    {p : Nat} (hp : ¬ (basePfn ≤ p ∧ p < basePfn + (nrPages - i))) :
    (addToPhysmapLoop chunk calls domid nrPages fuel k i basePfn baseGfn pm).2 p = pm p := by
  induction fuel generalizing k i basePfn baseGfn pm with
  | zero => rfl
  | succ fuel ih =>
    have hbatch : ∀ err, pm.addForeign domid basePfn baseGfn (min (nrPages - i) chunk) err p =
        pm p := by
      intro err
      exact if_neg (by omega)
    simp only [addToPhysmapLoop]
    split
    · split
      · rfl
      · split
        · exact hbatch fun j => calls.addErr (i + j)
        · rw [ih _ _ _ _ _ (by omega), hbatch]
    · rfl

/-- The count goes back by one page at most. -/
theorem addToPhysmapLoop_ge (domid nrPages fuel k i basePfn baseGfn : Nat) (pm : PhysMap) :
    i - 1 ≤ (addToPhysmapLoop chunk calls domid nrPages fuel k i basePfn baseGfn pm).1 := by
  induction fuel generalizing k i basePfn baseGfn pm with
  | zero => exact Nat.sub_le _ _
  | succ fuel ih =>
    simp only [addToPhysmapLoop]
    split
    · split
      · exact Nat.sub_le _ _
      · split
        · case h_1 j _ =>
          dsimp only
          split <;> omega
        · have hrest := ih (k + 1) (i + min (nrPages - i) chunk)
            (basePfn + min (nrPages - i) chunk) (baseGfn + min (nrPages - i) chunk)
            (pm.addForeign domid basePfn baseGfn (min (nrPages - i) chunk)
              fun j => calls.addErr (i + j))
          omega
    · exact Nat.sub_le _ _

/-- The first batch fails as a whole, or one of the first two pages is the first that fails
in its batch. -/
def AddFailsAtStart (chunk : Nat) (calls : MemCalls) (nrPages : Nat) : Prop :=
  calls.addRc 0 < 0 ∨ calls.addErr 0 ≠ 0 ∨
    (1 < nrPages ∧ ¬ (chunk = 1 ∧ calls.addRc 1 < 0) ∧ calls.addErr 1 ≠ 0)

instance (chunk : Nat) (calls : MemCalls) (nrPages : Nat) :
    Decidable (AddFailsAtStart chunk calls nrPages) :=
  inferInstanceAs (Decidable (_ ∨ _ ∨ _))

/-- From page 1 on, the count is 0 only when page 1 itself has an error code. -/
theorem addToPhysmapLoop_second {nrPages fuel : Nat} (domid basePfn baseGfn : Nat) (pm : PhysMap)
    (hchunk : 0 < chunk) (hfuel : 1 < nrPages → 0 < fuel) :
    (addToPhysmapLoop chunk calls domid nrPages fuel 1 1 basePfn baseGfn pm).1 = 0 ↔
      1 < nrPages ∧ ¬ calls.addRc 1 < 0 ∧ calls.addErr 1 ≠ 0 := by
  cases fuel with
  | zero => simp [addToPhysmapLoop]; omega
  | succ fuel =>
    by_cases hlt : 1 < nrPages
    · by_cases hrc : calls.addRc 1 < 0
      · simp [addToPhysmapLoop, hlt, hrc]
      · simp only [addToPhysmapLoop, hlt, if_true, hrc, if_false]
        split
        · case h_1 j hj =>
          obtain ⟨herr, -, hbefore⟩ := List.find?_range_eq_some.mp hj
          cases j with
          | zero => simpa using herr
          | succ j => simpa using hbefore 0 (by omega)
        · case h_2 hnone =>
          have hok := List.find?_range_eq_none.mp hnone 0 (by omega)
          have hge := @addToPhysmapLoop_ge chunk calls domid nrPages fuel (1 + 1)
            (1 + min (nrPages - 1) chunk) (basePfn + min (nrPages - 1) chunk)
            (baseGfn + min (nrPages - 1) chunk)
            (pm.addForeign domid basePfn baseGfn (min (nrPages - 1) chunk)
              fun j => calls.addErr (1 + j))
          have herr : calls.addErr 1 = 0 := by simpa using hok
          simp only [herr, ne_eq, not_true_eq_false, and_false, iff_false]
          omega
    · simp [addToPhysmapLoop, hlt]

theorem addedPages_eq_zero_iff {nrPages : Nat} (domid basePfn baseGfn : Nat) (pm : PhysMap)
    (hchunk : 0 < chunk) (hnr : 0 < nrPages) :
    (xendomAddToPhysmapBatchByChunks chunk calls domid basePfn baseGfn nrPages pm).1 = 0 ↔
      AddFailsAtStart chunk calls nrPages := by
  obtain ⟨fuel, rfl⟩ : ∃ fuel, nrPages = fuel + 1 := ⟨nrPages - 1, by omega⟩
  unfold xendomAddToPhysmapBatchByChunks AddFailsAtStart
  by_cases hrc : calls.addRc 0 < 0
  · simp [addToPhysmapLoop, hrc]
  generalize hiter : min (fuel + 1 - 0) chunk = iter
  simp only [addToPhysmapLoop, hnr, if_true, hrc, if_false, false_or, hiter, Nat.zero_add]
  split
  · case h_1 j hj =>
    -- page `j` is the first with an error code
    obtain ⟨herr, hmem, hbefore⟩ := List.find?_range_eq_some.mp hj
    have hlt : j < iter := List.mem_range.mp hmem
    match j, herr, hbefore with
    | 0, herr, _ => simp_all
    | 1, herr, hbefore =>
      have hne : chunk ≠ 1 := by omega
      have hfuel : 0 < fuel := by omega
      simp_all
    | j + 2, herr, hbefore =>
      have h0 := hbefore 0 (by omega)
      have h1 := hbefore 1 (by omega)
      simp_all
  · case h_2 hnone =>
    have hok := List.find?_range_eq_none.mp hnone
    have herr : calls.addErr 0 = 0 := by simpa using hok 0 (by omega)
    by_cases hone : iter = 1
    · subst hone
      have hchunk1 : 0 < fuel → chunk = 1 := by omega
      rw [addToPhysmapLoop_second domid _ _ _ hchunk (by omega)]
      simp only [herr, ne_eq, not_true_eq_false, false_or]
      constructor
      · rintro ⟨h1, h2, h3⟩
        exact ⟨h1, fun h => h2 h.2, h3⟩
      · rintro ⟨h1, h2, h3⟩
        exact ⟨h1, fun h => h2 ⟨hchunk1 (by omega), h⟩, h3⟩
    · have hsecond : calls.addErr 1 = 0 := by simpa using hok 1 (by omega)
      have hge := @addToPhysmapLoop_ge chunk calls domid (fuel + 1) fuel 1 iter (basePfn + iter)
        (baseGfn + iter) (pm.addForeign domid basePfn baseGfn iter fun j => calls.addErr j)
      simp only [herr, hsecond, ne_eq, not_true_eq_false, and_false, or_false, iff_false]
      omega

/-- The block is Dom0's own memory and so is the caller's variable, which lies elsewhere; what
is done to clean up succeeds. -/
structure MapSetting (chunk : Nat) (calls : MemCalls) (nrPages : Nat) (pointer : Option Nat)
    (pm : PhysMap) : Prop where
  chunkPos : 0 < chunk
  chunkLt : chunk < 2 ^ 32
  pagesLt : nrPages < 2 ^ 64
  block : ∀ base, calls.alignedAlloc = some base → ∀ i < nrPages, pm (base + i) = .own
  pointerOwn : ∀ v, pointer = some v → pm v = .own
  apart : ∀ v base, pointer = some v → calls.alignedAlloc = some base →
    ¬ (base ≤ v ∧ v < base + nrPages)
  undo : ∀ i, 0 ≤ calls.undoRc i
  populate : ∀ k n, calls.populateRet k n = n

/-- Nothing was mapped when the call failed, or the add loop reports that nothing was. -/
def MapFailsAtStart (chunk : Nat) (calls : MemCalls) (nrPages : Nat) (pointer : Option Nat) :
    Prop :=
  pointer = none ∨ calls.alignedAlloc = none ∨ nrPages = 0 ∨
    (∃ i < nrPages, calls.removeRc i < 0) ∨ AddFailsAtStart chunk calls nrPages

theorem PhysMap.populate_removeRange {pm : PhysMap} {base count : Nat}
    (hown : ∀ i < count, pm (base + i) = .own) :
    (pm.removeRange base count).populate base 0 count = pm := by
  funext p
  simp only [PhysMap.populate, PhysMap.removeRange, Nat.pow_zero, Nat.mul_one]
  split
  · case isTrue hp =>
    obtain ⟨i, rfl⟩ := Nat.exists_eq_add_of_le hp.1
    exact (hown i (by omega)).symm
  · rfl

section Whole

variable {nrPages : Nat} {pointer : Option Nat} {pm : PhysMap}

theorem MapSetting.chunkMul (h : MapSetting chunk calls nrPages pointer pm) :
    chunk * 2 ^ 0 < 2 ^ 32 := by
  simpa using h.chunkLt

/-- Either the block is there, taken out of Dom0, or the physmap is as it was. -/
theorem getRegionSpace_spec (h : MapSetting chunk calls nrPages pointer pm) :
    (∃ base, calls.alignedAlloc = some base ∧ 0 < nrPages ∧ (∀ i < nrPages, 0 ≤ calls.removeRc i) ∧
      getRegionSpace chunk calls nrPages pm = (some base, pm.removeRange base nrPages)) ∨
    ((calls.alignedAlloc = none ∨ nrPages = 0 ∨ ∃ i < nrPages, calls.removeRc i < 0) ∧
      getRegionSpace chunk calls nrPages pm = (none, pm)) := by
  cases halloc : calls.alignedAlloc with
  | none => exact .inr ⟨.inl rfl, by simp [getRegionSpace, halloc]⟩
  | some base =>
    obtain ⟨n, hle, hiff, hremove⟩ := regionSpaceRemove_spec calls.removeRc base nrPages pm
    rcases Nat.lt_or_ge n nrPages with hlt | hge
    · refine .inr ⟨.inr (.inr (hiff.mp hlt)), ?_⟩
      have hne : n ≠ nrPages := by omega
      simp only [getRegionSpace, halloc, hremove]
      by_cases h0 : n = 0
      · simp [h0]
      · have hpages := h.pagesLt
        rw [if_neg h0, if_pos hne, xenmemPopulatePhysmap_all h.chunkPos h.chunkMul (by omega)
          h.populate, PhysMap.populate_removeRange fun i hi => h.block base halloc i (by omega)]
    · obtain rfl : n = nrPages := by omega
      by_cases h0 : n = 0
      · refine .inr ⟨.inr (.inl h0), ?_⟩
        simp only [getRegionSpace, halloc, hremove]
        simp [h0]
      · refine .inl ⟨base, rfl, by omega, ?_, by simp [getRegionSpace, halloc, hremove, h0]⟩
        intro i hi
        by_contra hneg
        have := hiff.mpr ⟨i, hi, by omega⟩
        omega

theorem undo_spec (h : MapSetting chunk calls nrPages pointer pm) {v base count : Nat}
    (hpointer : pointer = some v) (halloc : calls.alignedAlloc = some base) {pm' : PhysMap}
    (hsame : ∀ p, ¬ (base ≤ p ∧ p < base + nrPages) → pm' p = pm p) :
    (putRegionSpace chunk calls base nrPages (regionSpaceRemove calls.undoRc v count pm').2).2 =
        pm ↔ count = 0 := by
  obtain ⟨n, hle, hiff, hremove⟩ := regionSpaceRemove_spec calls.undoRc v count pm'
  have hn : n = count := by
    by_contra hne
    obtain ⟨j, -, hj⟩ := hiff.mp (by omega)
    have := h.undo j
    omega
  subst hn
  have hput : (putRegionSpace chunk calls base nrPages (pm'.removeRange v n)).2 =
      (pm'.removeRange v n).populate base 0 nrPages := by
    simp [putRegionSpace, xenmemPopulatePhysmap_all h.chunkPos h.chunkMul h.pagesLt h.populate]
  rw [hremove, hput]
  constructor
  · intro heq
    by_contra hpos
    have hout := h.apart v base hpointer halloc
    have hgone := congrFun heq v
    rw [h.pointerOwn v hpointer] at hgone
    have hrange : v ≤ v ∧ v < v + n := by omega
    simp [PhysMap.populate, PhysMap.removeRange, hout, hrange] at hgone
  · rintro rfl
    rw [PhysMap.removeRange_zero]
    funext p
    simp only [PhysMap.populate, Nat.pow_zero, Nat.mul_one]
    split
    · case isTrue hp =>
      obtain ⟨i, rfl⟩ := Nat.exists_eq_add_of_le hp.1
      exact (h.block base halloc i (by omega)).symm
    · case isFalse hp => exact hsame p hp

/-- When the call fails, Dom0's physmap is as before exactly when nothing had been added or
the add loop reports so. -/
theorem mapRegion_restored_iff {domid baseGfn : Nat} {e : MemErr}
    (h : MapSetting chunk calls nrPages pointer pm)
    (herr : (xenmemMapRegion chunk calls domid nrPages baseGfn pointer pm).1 = .error e) :
    (xenmemMapRegion chunk calls domid nrPages baseGfn pointer pm).2 = pm ↔
      MapFailsAtStart chunk calls nrPages pointer := by
  cases hpointer : pointer with
  | none => simp [xenmemMapRegion, MapFailsAtStart]
  | some v =>
    subst hpointer
    rcases getRegionSpace_spec h with ⟨base, halloc, hpos, hok, hget⟩ | ⟨hearly, hget⟩
    · have hcount := @addedPages_eq_zero_iff chunk calls nrPages domid base baseGfn
        (pm.removeRange base nrPages) h.chunkPos hpos
      have hsame : ∀ p, ¬ (base ≤ p ∧ p < base + nrPages) →
          (xendomAddToPhysmapBatchByChunks chunk calls domid base baseGfn nrPages
            (pm.removeRange base nrPages)).2 p = pm p := by
        intro p hp
        unfold xendomAddToPhysmapBatchByChunks
        rw [addToPhysmapLoop_outside _ _ _ _ _ _ _ _ (by omega)]
        exact if_neg hp
      generalize hadd : xendomAddToPhysmapBatchByChunks chunk calls domid base baseGfn nrPages
        (pm.removeRange base nrPages) = added at hcount hsame
      simp only [xenmemMapRegion, hget, hadd] at herr ⊢
      split at herr
      · case isTrue hne =>
        rw [if_pos hne, undo_spec h rfl halloc hsame, hcount]
        have hremoved : ¬ ∃ i < nrPages, calls.removeRc i < 0 := by
          rintro ⟨i, hi, hneg⟩
          have := hok i hi
          omega
        have h0 : nrPages ≠ 0 := by omega
        simp [MapFailsAtStart, halloc, hremoved, h0]
      · cases herr
    · simp only [xenmemMapRegion, hget, true_iff]
      exact .inr (hearly.elim .inl fun h => .inr (h.elim .inl fun h => .inr (.inl h)))

end Whole

end

/-- Calls that all succeed, but for the error codes of some pages. -/
def callsWithErrors (base : Nat) (addErr : Nat → Int) : MemCalls :=
  ⟨some base, fun _ => 0, fun _ => 0, addErr, fun _ => 0, fun _ n => n⟩

theorem callsWithErrors_setting {base v nrPages : Nat} {addErr : Nat → Int} (hnr : nrPages < 2 ^ 64)
    (hv : v < base) : MapSetting 512 (callsWithErrors base addErr) nrPages (some v) fun _ => .own :=
  ⟨by decide, by decide, hnr, fun _ _ _ _ => rfl, fun _ _ => rfl,
    by rintro v' base' ⟨⟩ ⟨⟩; omega, fun _ => Int.le_refl 0, fun _ _ => rfl⟩

theorem mapRegion_restored_first :
    let calls := callsWithErrors 100 fun i => if i = 0 then -12 else 0
    (xenmemMapRegion 512 calls 1 4 50 (some 7) fun _ => .own).1 = .error .enomem ∧
      (xenmemMapRegion 512 calls 1 4 50 (some 7) fun _ => .own).2 = fun _ => .own := by
  intro calls
  have herr : (xenmemMapRegion 512 calls 1 4 50 (some 7) fun _ => .own).1 = .error .enomem := by
    decide
  have hstart : MapFailsAtStart 512 calls 4 (some 7) :=
    .inr (.inr (.inr (.inr (.inr (.inl (by decide))))))
  exact ⟨herr, (mapRegion_restored_iff (callsWithErrors_setting (by decide) (by decide)) herr).mpr
    hstart⟩

/-- Four pages of which the third cannot be added: the frame of the caller's variable is taken
out of Dom0. -/
theorem mapRegion_not_restored :
    ∃ (chunk : Nat) (calls : MemCalls) (domid nrPages baseGfn : Nat) (pointer : Option Nat)
      (pm : PhysMap), MapSetting chunk calls nrPages pointer pm ∧
      (xenmemMapRegion chunk calls domid nrPages baseGfn pointer pm).1 = .error .enomem ∧
      (xenmemMapRegion chunk calls domid nrPages baseGfn pointer pm).2 ≠ pm := by
  let calls := callsWithErrors 100 fun i => if i = 2 then -12 else 0
  refine ⟨512, calls, 1, 4, 50, some 7, fun _ => .own, callsWithErrors_setting (by decide)
    (by decide), by decide, fun h => ?_⟩
  have hgone : (xenmemMapRegion 512 calls 1 4 50 (some 7) fun _ => .own).2 7 = .empty := by decide
  rw [h] at hgone
  cases hgone

end Xenlib
