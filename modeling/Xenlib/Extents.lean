import Xenlib.MapFailure

/-!
What `xenmem_populate_physmap` returns. The result of a hypercall is added to an unsigned count
before it is looked at, and the base of the next batch is moved on by a shift in 32 bits.
-/

set_option autoImplicit false

namespace Xenlib

/-- `base_pfn + (k << pfn_shift)` in 64 bits. -/
def extent (basePfn shift k : Nat) : Nat := (basePfn + k * 2 ^ shift) % 2 ^ 64

section Loop
variable (chunk : Nat) (ret : Nat → Nat → Int)

/-- `xenmem_populate_physmap` with the extents populated so far. `ret k n` is what the hypercall
for batch `k` of `n` extents returns; where it is not negative so many extents are populated. -/
def populateExtentsLoop (shift nrPages : Nat) : (fuel k i basePfn : Nat) → List Nat →
    Nat × List Nat
  | 0, _, i, _, done => (i, done)
  | fuel + 1, k, i, basePfn, done =>
    if i < nrPages then
      let populateIter := min (nrPages - i) chunk
      let pfns := (List.range populateIter).map (extent basePfn shift)
      let done := done ++ pfns.take (ret k populateIter).toNat
      let i := ((i + ret k populateIter) % 2 ^ 64).toNat
      if ret k populateIter ≠ populateIter then (i, done)
      else
        populateExtentsLoop shift nrPages fuel (k + 1) i
          ((basePfn + (populateIter <<< shift) % 2 ^ 32) % 2 ^ 64) done
    else (i, done)

def populateExtents (basePfn shift nrPages : Nat) : Nat × List Nat :=
  populateExtentsLoop chunk ret shift nrPages nrPages 0 0 basePfn []

theorem populateLoop_count (calls : MemCalls) (shift nrPages fuel k i basePfn b : Nat)
    (pm : PhysMap) (done : List Nat) :
    (populateLoop chunk calls shift nrPages fuel k i basePfn pm).1 =
      (populateExtentsLoop chunk calls.populateRet shift nrPages fuel k i b done).1 := by
  induction fuel generalizing k i basePfn b pm done with
  | zero => rfl
  | succ fuel ih =>
    simp only [populateLoop, populateExtentsLoop]
    split
    · split
      · rfl
      · exact ih _ _ _ _ _ _
    · rfl

theorem xenmemPopulatePhysmap_count (calls : MemCalls) (basePfn shift nrPages : Nat)
    (pm : PhysMap) :
    (xenmemPopulatePhysmap chunk calls basePfn shift nrPages pm).1 =
      (populateExtents chunk calls.populateRet basePfn shift nrPages).1 :=
  populateLoop_count chunk calls shift nrPages nrPages 0 0 basePfn basePfn pm []

def PhysMap.populateAll (pm : PhysMap) (shift : Nat) (extents : List Nat) : PhysMap :=
  extents.foldl (fun pm pfn => pm.populate pfn shift 1) pm

theorem PhysMap.populateAll_append (pm : PhysMap) (shift : Nat) (done extents : List Nat) :
    pm.populateAll shift (done ++ extents) =
      (pm.populateAll shift done).populateAll shift extents :=
  List.foldl_append

theorem PhysMap.populateAll_range (pm : PhysMap) {basePfn shift n : Nat}
    (h : basePfn + n * 2 ^ shift ≤ 2 ^ 64) :
    pm.populateAll shift ((List.range n).map (extent basePfn shift)) =
      pm.populate basePfn shift n := by
  induction n with
  | zero => simp [PhysMap.populateAll, PhysMap.populate_zero]
  | succ n ih =>
    have hmul : (n + 1) * 2 ^ shift = n * 2 ^ shift + 2 ^ shift := Nat.succ_mul _ _
    have hpos : 0 < 2 ^ shift := Nat.two_pow_pos shift
    have hlast : extent basePfn shift n = basePfn + n * 2 ^ shift :=
      Nat.mod_eq_of_lt (by omega)
    rw [List.range_succ, List.map_append, PhysMap.populateAll_append, ih (by omega)]
    funext p
    simp only [List.map_cons, List.map_nil, PhysMap.populateAll, List.foldl_cons, List.foldl_nil,
      hlast, PhysMap.populate, hmul, Nat.one_mul]
    split_ifs <;> first | rfl | omega

theorem populateLoop_extents {calls : MemCalls} {shift nrPages : Nat}
    (hr : ∀ k n : Nat, calls.populateRet k n ≤ n) (hnr : nrPages < 2 ^ 64) (pm : PhysMap)
    {fuel k i basePfn b : Nat} {done : List Nat} (hb : i < nrPages → b = basePfn)
    (hbase : basePfn + (nrPages - i) * 2 ^ shift ≤ 2 ^ 64) :
    populateLoop chunk calls shift nrPages fuel k i basePfn (pm.populateAll shift done) =
      Prod.map id (pm.populateAll shift)
        (populateExtentsLoop chunk calls.populateRet shift nrPages fuel k i b done) := by
  induction fuel generalizing k i basePfn b done with
  | zero => rfl
  | succ fuel ih =>
    by_cases hlt : i < nrPages
    · obtain rfl := hb hlt
      have hret := hr k (min (nrPages - i) chunk)
      have hiter : min (nrPages - i) chunk ≤ nrPages - i := Nat.min_le_left _ _
      simp only [populateLoop, populateExtentsLoop, if_pos hlt]
      generalize min (nrPages - i) chunk = iter at hret hiter ⊢
      generalize calls.populateRet k iter = ret at hret ⊢
      have hmul : ret.toNat * 2 ^ shift ≤ (nrPages - i) * 2 ^ shift :=
        Nat.mul_le_mul_right _ (by omega)
      have hdone : (pm.populateAll shift done).populate b shift ret.toNat =
          pm.populateAll shift
            (done ++ ((List.range iter).map (extent b shift)).take ret.toNat) := by
        rw [PhysMap.populateAll_append, ← List.map_take, List.take_range,
          Nat.min_eq_left (by omega), PhysMap.populateAll_range _ (by omega)]
      rw [hdone]
      split
      · rfl
      · rename_i hfull
        have hcount : ((i + ret) % 2 ^ 64).toNat = i + iter := by omega
        have hstep : (iter <<< shift) % 2 ^ 32 ≤ iter * 2 ^ shift := by
          rw [Nat.shiftLeft_eq]
          exact Nat.mod_le _ _
        have hsplit : (nrPages - i) * 2 ^ shift =
            (nrPages - (i + iter)) * 2 ^ shift + iter * 2 ^ shift := by
          rw [← Nat.add_mul]
          congr 1
          omega
        rw [hcount]
        refine ih (fun hmore => ?_) (by omega)
        have hleft : 0 < (nrPages - (i + iter)) * 2 ^ shift :=
          Nat.mul_pos (by omega) (Nat.two_pow_pos shift)
        exact Nat.mod_eq_of_lt (by omega)
    · rw [populateLoop, populateExtentsLoop, if_neg hlt, if_neg hlt]
      rfl

/-- The physmap is that with the extents of the loop populated. -/
theorem xenmemPopulatePhysmap_extents {calls : MemCalls} {basePfn shift nrPages : Nat}
    (hr : ∀ k n : Nat, calls.populateRet k n ≤ n) (hnr : nrPages < 2 ^ 64)
    (hbase : basePfn + nrPages * 2 ^ shift ≤ 2 ^ 64) (pm : PhysMap) :
    xenmemPopulatePhysmap chunk calls basePfn shift nrPages pm =
      Prod.map id (pm.populateAll shift)
        (populateExtents chunk calls.populateRet basePfn shift nrPages) :=
  @populateLoop_extents chunk calls shift nrPages hr hnr pm nrPages 0 0 basePfn basePfn []
    (fun _ => rfl) hbase

/-- A negative error, or a count that is at most the number of extents asked for. -/
structure PopulateReturns : Prop where
  atMost : ∀ k n, ret k n ≤ n
  int : ∀ k n, -2 ^ 31 ≤ ret k n

/-- The number of extents in batch `k`. -/
def batchSize (nrPages k : Nat) : Nat := min (nrPages - k * chunk) chunk

/-- The batches before `m`, from `k` on, are populated in full. -/
def FullBefore (nrPages k m : Nat) : Prop :=
  ∀ j, k ≤ j → j < m → ret j (batchSize chunk nrPages j) = batchSize chunk nrPages j

/-- From batch `k` on no call that is made fails. -/
def NoError (nrPages k : Nat) : Prop :=
  ∀ m, k ≤ m → m * chunk < nrPages → FullBefore chunk ret nrPages k m →
    0 ≤ ret m (batchSize chunk nrPages m)

/-- The step of the base is the same in 32 bits and in 64. -/
def StepFits (shift : Nat) : Prop := (chunk <<< shift) % 2 ^ 32 = (chunk <<< shift) % 2 ^ 64

def SecondBatch (nrPages : Nat) : Prop :=
  chunk < nrPages ∧ ret 0 chunk = chunk ∧ 0 < ret 1 (batchSize chunk nrPages 1)

structure CountsExtents (basePfn shift nrPages : Nat) (r : Nat × List Nat) : Prop where
  extents : r.2 = (List.range r.1).map (extent basePfn shift)
  atMost : r.1 ≤ nrPages

end Loop

section Spec
variable {chunk : Nat} {ret : Nat → Nat → Int} {shift nrPages : Nat}

theorem extent_extent (basePfn shift i j : Nat) :
    extent ((basePfn + i * 2 ^ shift) % 2 ^ 64) shift j = extent basePfn shift (i + j) := by
  unfold extent
  rw [Nat.mod_add_mod, Nat.add_mul, Nat.add_assoc]

theorem extents_append (basePfn shift i n : Nat) {c : Nat} (hc : c ≤ n) :
    (List.range i).map (extent basePfn shift) ++
      ((List.range n).map (extent ((basePfn + i * 2 ^ shift) % 2 ^ 64) shift)).take c =
      (List.range (i + c)).map (extent basePfn shift) := by
  rw [← List.map_take, List.take_range, Nat.min_eq_left hc, List.range_add, List.map_append,
    List.map_map]
  congr 1
  exact List.map_congr_left fun j _ => extent_extent basePfn shift i j

theorem batch_next {k i : Nat} (hi : i = min (k * chunk) nrPages) :
    i + min (nrPages - i) chunk = min ((k + 1) * chunk) nrPages := by
  rw [Nat.succ_mul]
  omega

theorem batchSize_eq {k i : Nat} (hi : i = min (k * chunk) nrPages) (hlt : i < nrPages) :
    min (nrPages - i) chunk = batchSize chunk nrPages k := by
  unfold batchSize
  congr 2
  omega

theorem NoError.tail {k : Nat} (h : NoError chunk ret nrPages k)
    (hfull : ret k (batchSize chunk nrPages k) = batchSize chunk nrPages k) :
    NoError chunk ret nrPages (k + 1) := by
  intro m hm hlt hbefore
  refine h m (by omega) hlt fun j hj hjm => ?_
  by_cases hjk : j = k
  · rw [hjk, hfull]
  · exact hbefore j (by omega) hjm

/-- A batch behind batch `k` populates extents. -/
def LaterExtents (chunk : Nat) (ret : Nat → Nat → Int) (nrPages k : Nat) : Prop :=
  ∃ m, k < m ∧ m * chunk < nrPages ∧ FullBefore chunk ret nrPages k m ∧
    0 < ret m (batchSize chunk nrPages m)

theorem LaterExtents.of_tail {k : Nat} (h : LaterExtents chunk ret nrPages (k + 1))
    (hfull : ret k (batchSize chunk nrPages k) = batchSize chunk nrPages k) :
    LaterExtents chunk ret nrPages k := by
  obtain ⟨m, hm, hlt, hbefore, hpos⟩ := h
  refine ⟨m, by omega, hlt, fun j hj hjm => ?_, hpos⟩
  by_cases hjk : j = k
  · rw [hjk, hfull]
  · exact hbefore j (by omega) hjm

theorem laterExtents_zero (hpos : 0 < chunk) :
    LaterExtents chunk ret nrPages 0 ↔ SecondBatch chunk ret nrPages := by
  constructor
  · rintro ⟨m, hm, hlt, hbefore, hret⟩
    have hmul : 1 * chunk ≤ m * chunk := Nat.mul_le_mul_right _ hm
    have hfirst := hbefore 0 (Nat.le_refl 0) hm
    have hsize : batchSize chunk nrPages 0 = chunk := by
      unfold batchSize
      omega
    rw [hsize] at hfirst
    refine ⟨by omega, hfirst, ?_⟩
    by_cases hone : m = 1
    · rwa [hone] at hret
    · rw [hbefore 1 (by omega) (by omega)]
      have htwo : 2 * chunk ≤ m * chunk := Nat.mul_le_mul_right _ (by omega)
      unfold batchSize
      omega
  · rintro ⟨hlt, hfirst, hret⟩
    refine ⟨1, by omega, by omega, fun j _ hj => ?_, hret⟩
    have hsize : batchSize chunk nrPages 0 = chunk := by
      unfold batchSize
      omega
    rw [show j = 0 by omega, hsize, hfirst]

/-- Where the steps fit, or the first batch is the last one that populates any, the loop populates
the extents in order. -/
theorem populateExtentsLoop_counts (hr : PopulateReturns ret) (hnr : nrPages < 2 ^ 64)
    (hpos : 0 < chunk) (basePfn : Nat) {fuel k i b : Nat} (hi : i = min (k * chunk) nrPages)
    (hfuel : nrPages - i ≤ fuel)
    (hb : i < nrPages → 0 < ret k (batchSize chunk nrPages k) →
      b = (basePfn + i * 2 ^ shift) % 2 ^ 64)
    (hstep : LaterExtents chunk ret nrPages k → StepFits chunk shift)
    (hok : NoError chunk ret nrPages k) :
    CountsExtents basePfn shift nrPages (populateExtentsLoop chunk ret shift nrPages fuel k i b
      ((List.range i).map (extent basePfn shift))) := by
  induction fuel generalizing k i b with
  | zero =>
    have hle : i ≤ nrPages := by omega
    exact ⟨rfl, hle⟩
  | succ fuel ih =>
    by_cases hlt : i < nrPages
    · have hsize := batchSize_eq hi hlt
      have hret : 0 ≤ ret k (batchSize chunk nrPages k) :=
        hok k (Nat.le_refl k) (by omega) fun j hj hjk => by omega
      have hle := hr.atMost k (batchSize chunk nrPages k)
      generalize hc : ret k (batchSize chunk nrPages k) = c at hret hle hb
      obtain ⟨c, rfl⟩ := Int.eq_ofNat_of_zero_le hret
      have hcount : (((i : Int) + (c : Nat)) % 2 ^ 64).toNat = i + c := by omega
      have hdone : (List.range i).map (extent basePfn shift) ++
          ((List.range (batchSize chunk nrPages k)).map (extent b shift)).take c =
          (List.range (i + c)).map (extent basePfn shift) := by
        by_cases hzero : c = 0
        · simp [hzero]
        · rw [hb hlt (by omega), extents_append basePfn shift i _ (by omega)]
      simp only [populateExtentsLoop, if_pos hlt, hsize, hc, hcount, Int.toNat_natCast, hdone]
      split
      · exact ⟨rfl, by omega⟩
      · rename_i hfull
        have hfull : c = batchSize chunk nrPages k := by omega
        have hret : ret k (batchSize chunk nrPages k) = batchSize chunk nrPages k := by
          rw [hc, hfull]
        have hnext := batch_next hi
        rw [hsize] at hnext
        refine ih (by rw [hfull, hnext]) (by omega) (fun hmore hsome => ?_)
          (fun hlater => hstep (hlater.of_tail hret)) (hok.tail hret)
        -- a further batch follows a full one only
        have hchunk : batchSize chunk nrPages k = chunk := by omega
        have hfits := hstep ⟨k + 1, by omega, by rw [Nat.succ_mul]; omega,
          fun j hj hjk => by rw [show j = k by omega, hret], hsome⟩
        unfold StepFits at hfits
        rw [hb hlt (by omega), hfull, hchunk, hfits, Nat.shiftLeft_eq, Nat.mod_add_mod,
          Nat.add_mod_mod, Nat.add_mul, Nat.add_assoc]
    · have hle : i ≤ nrPages := by omega
      rw [populateExtentsLoop, if_neg hlt]
      exact ⟨rfl, hle⟩

theorem populateExtentsLoop_length (hr : PopulateReturns ret) (hnr : nrPages < 2 ^ 64)
    (hpos : 0 < chunk) {fuel k i b : Nat} {done : List Nat} (hi : i = min (k * chunk) nrPages)
    (hfuel : nrPages - i ≤ fuel) (hdone : done.length = i) :
    (populateExtentsLoop chunk ret shift nrPages fuel k i b done).1 =
      (populateExtentsLoop chunk ret shift nrPages fuel k i b done).2.length ↔
      NoError chunk ret nrPages k := by
  induction fuel generalizing k i b done with
  | zero =>
    refine iff_of_true hdone.symm fun m hm hlt _ => ?_
    have hmul : k * chunk ≤ m * chunk := Nat.mul_le_mul_right _ hm
    omega
  | succ fuel ih =>
    by_cases hlt : i < nrPages
    · have hsize := batchSize_eq hi hlt
      have hmade : k * chunk < nrPages := by omega
      have hle := hr.atMost k (batchSize chunk nrPages k)
      have hint := hr.int k (batchSize chunk nrPages k)
      have hbatch : batchSize chunk nrPages k ≤ nrPages - i := by omega
      simp only [populateExtentsLoop, if_pos hlt, hsize]
      by_cases hneg : ret k (batchSize chunk nrPages k) < 0
      · rw [if_pos (by omega)]
        refine iff_of_false ?_ fun hno => ?_
        · simp only [List.length_append, List.length_take, hdone]
          omega
        · have := hno k (Nat.le_refl k) hmade fun j hj hjk => by omega
          omega
      · have hcopied : (done ++ ((List.range (batchSize chunk nrPages k)).map
            (extent b shift)).take (ret k (batchSize chunk nrPages k)).toNat).length =
            ((i + ret k (batchSize chunk nrPages k)) % 2 ^ 64).toNat := by
          simp only [List.length_append, List.length_take, List.length_map, List.length_range,
            hdone]
          omega
        split
        · rename_i hshort
          refine iff_of_true hcopied.symm fun m hm hltm hbefore => ?_
          by_cases hmk : m = k
          · rw [hmk]
            omega
          · exact absurd (hbefore k (Nat.le_refl k) (by omega)) hshort
        · rename_i hfull
          rw [not_not] at hfull
          have hnext := batch_next hi
          rw [hsize] at hnext
          rw [ih (by omega) (by omega) hcopied]
          refine ⟨fun hno m hm hltm hbefore => ?_, fun hno => hno.tail hfull⟩
          by_cases hmk : m = k
          · rw [hmk]
            omega
          · exact hno m (by omega) hltm fun j hj hjm => hbefore j (by omega) hjm
    · rw [populateExtentsLoop, if_neg hlt]
      refine iff_of_true hdone.symm fun m hm hltm _ => ?_
      have hmul : k * chunk ≤ m * chunk := Nat.mul_le_mul_right _ hm
      omega

theorem populateExtentsLoop_prefix (fuel k i b : Nat) (done : List Nat) :
    done <+: (populateExtentsLoop chunk ret shift nrPages fuel k i b done).2 := by
  induction fuel generalizing k i b done with
  | zero => exact List.prefix_rfl
  | succ fuel ih =>
    simp only [populateExtentsLoop]
    split
    · split
      · exact List.prefix_append _ _
      · exact (List.prefix_append _ _).trans (ih _ _ _ _)
    · exact List.prefix_rfl

theorem populateExtents_second (hnr : nrPages < 2 ^ 64) (hpos : 0 < chunk) (basePfn : Nat)
    (h : SecondBatch chunk ret nrPages) :
    (populateExtents chunk ret basePfn shift nrPages).2[chunk]? =
      some (extent ((basePfn + (chunk <<< shift) % 2 ^ 32) % 2 ^ 64) shift 0) := by
  obtain ⟨hlt, hfirst, hsecond⟩ := h
  obtain ⟨fuel, rfl⟩ : ∃ fuel, nrPages = fuel + 2 := ⟨nrPages - 2, by omega⟩
  generalize hb : (basePfn + (chunk <<< shift) % 2 ^ 32) % 2 ^ 64 = b
  have hrun : populateExtents chunk ret basePfn shift (fuel + 2) =
      populateExtentsLoop chunk ret shift (fuel + 2) (fuel + 1) 1 chunk b
        ((List.range chunk).map (extent basePfn shift)) := by
    have hsize : min (fuel + 2 - 0) chunk = chunk := by omega
    have hcount : ((((0 : Nat) : Int) + (chunk : Nat)) % 2 ^ 64).toNat = chunk := by omega
    have hcopied : ((List.range chunk).map (extent basePfn shift)).take chunk =
        (List.range chunk).map (extent basePfn shift) := List.take_of_length_le (by simp)
    rw [populateExtents, populateExtentsLoop]
    simp only [if_pos (Nat.succ_pos (fuel + 1)), hsize, hfirst, hcount, ne_eq, not_true_eq_false,
      if_false, hb, Int.toNat_natCast, hcopied, List.nil_append, Nat.zero_add]
  have hnext : min (fuel + 2 - chunk) chunk = batchSize chunk (fuel + 2) 1 := by
    rw [batchSize, Nat.one_mul]
  obtain ⟨n, hn⟩ : ∃ n, batchSize chunk (fuel + 2) 1 = n + 1 :=
    ⟨batchSize chunk (fuel + 2) 1 - 1, by omega⟩
  obtain ⟨c, hc⟩ : ∃ c, (ret 1 (n + 1)).toNat = c + 1 :=
    ⟨(ret 1 (n + 1)).toNat - 1, by rw [hn] at hsecond; omega⟩
  have hprefix : (List.range chunk).map (extent basePfn shift) ++
      ((List.range (n + 1)).map (extent b shift)).take (c + 1) <+:
      (populateExtents chunk ret basePfn shift (fuel + 2)).2 := by
    rw [hrun, populateExtentsLoop]
    simp only [if_pos hlt, hnext, hn, hc]
    split
    · exact List.prefix_rfl
    · exact populateExtentsLoop_prefix _ _ _ _ _
  obtain ⟨rest, hrest⟩ := hprefix
  rw [← hrest, List.append_assoc, List.getElem?_append_right (by simp), List.range_succ_eq_map]
  simp

/-- The result counts the extents that are populated, each once, exactly when no call fails and,
where a second batch populates any, the step of the base fits in 32 bits. -/
theorem populateExtents_counts_iff (hr : PopulateReturns ret) (hpos : 0 < chunk) {basePfn : Nat}
    (hbase : basePfn < 2 ^ 64) (hnr : nrPages < 2 ^ 64) :
    CountsExtents basePfn shift nrPages (populateExtents chunk ret basePfn shift nrPages) ↔
      NoError chunk ret nrPages 0 ∧ (SecondBatch chunk ret nrPages → StepFits chunk shift) := by
  constructor
  · intro h
    refine ⟨?_, fun hsecond => ?_⟩
    · refine (@populateExtentsLoop_length chunk ret shift nrPages hr hnr hpos nrPages 0 0 basePfn []
        (by simp) (by omega) rfl).mp ?_
      have hlen := congrArg List.length h.extents
      rw [List.length_map, List.length_range] at hlen
      exact hlen.symm
    · have hget := @populateExtents_second chunk ret shift nrPages hnr hpos basePfn hsecond
      rw [h.extents, List.getElem?_map] at hget
      obtain ⟨k, hk, hextent⟩ := Option.map_eq_some_iff.mp hget
      obtain ⟨hlt, rfl⟩ := List.getElem?_eq_some_iff.mp hk
      rw [List.getElem_range, extent, extent, ← Nat.shiftLeft_eq] at hextent
      unfold StepFits
      omega
  · rintro ⟨hok, hstep⟩
    refine populateExtentsLoop_counts hr hnr hpos basePfn (by simp) (by omega) (fun _ _ => ?_)
      (fun hlater => hstep ((laterExtents_zero hpos).mp hlater)) hok
    rw [Nat.zero_mul, Nat.add_zero, Nat.mod_eq_of_lt hbase]

end Spec

/-- Ten extents of 4 KiB in batches of four, all populated. -/
theorem populateExtents_ten :
    CountsExtents 100 0 10 (populateExtents 4 (fun _ n => n) 100 0 10) :=
  (populateExtents_counts_iff ⟨fun _ _ => Int.le_refl _, fun _ _ => by omega⟩ (by decide)
    (by decide) (by decide)).mpr ⟨fun _ _ _ _ => Int.natCast_nonneg _, fun _ => rfl⟩

/-- The second batch of four fails with -12: the result is 2 ^ 64 - 8. -/
theorem failed_batch_counted :
    ¬ ∀ (chunk : Nat) (ret : Nat → Nat → Int) (basePfn shift nrPages : Nat),
      PopulateReturns ret → 0 < chunk → basePfn < 2 ^ 64 → nrPages < 2 ^ 64 →
      CountsExtents basePfn shift nrPages (populateExtents chunk ret basePfn shift nrPages) := by
  intro h
  have hcounts := h 4 (fun k n => if k = 1 then -12 else n) 100 0 10
    ⟨fun k n => by split <;> omega, fun k n => by split <;> omega⟩
    (by decide) (by decide) (by decide)
  exact absurd hcounts.atMost (by decide)

end Xenlib
