import Xenlib.SetupCalls

/-!
What `load_modules` reads of an image. The size that the callback reports is that of the whole
image, a uImage header included, and is asked for behind the header.
-/

set_option autoImplicit false

namespace Xenlib

/-- A computation with the calls of `load_image_bytes` it makes, each with its number of bytes and
its offset, and what the last of them has put into the pages of the domain. -/
structure ImageRun (α : Type) where
  val : α
  reads : List (Nat × Nat)
  kernel : Option Bytes

instance : Monad ImageRun where
  pure a := ⟨a, [], none⟩
  bind x f := ⟨(f x.val).val, x.reads ++ (f x.val).reads, (f x.val).kernel.or x.kernel⟩

section Runs
variable {α β : Type}

@[simp] theorem ImageRun.val_pure (a : α) : (pure a : ImageRun α).val = a := rfl

@[simp] theorem ImageRun.reads_pure (a : α) : (pure a : ImageRun α).reads = [] := rfl

@[simp] theorem ImageRun.kernel_pure (a : α) : (pure a : ImageRun α).kernel = none := rfl

@[simp] theorem ImageRun.val_bind (x : ImageRun α) (f : α → ImageRun β) :
    (x >>= f).val = (f x.val).val := rfl

@[simp] theorem ImageRun.reads_bind (x : ImageRun α) (f : α → ImageRun β) :
    (x >>= f).reads = x.reads ++ (f x.val).reads := rfl

@[simp] theorem ImageRun.kernel_bind (x : ImageRun α) (f : α → ImageRun β) :
    (x >>= f).kernel = (f x.val).kernel.or x.kernel := rfl

theorem ImageRun.val_ite (c : Prop) [Decidable c] (x y : ImageRun α) :
    (if c then x else y).val = if c then x.val else y.val := apply_ite _ _ _ _

theorem Traced.val_ite (c : Prop) [Decidable c] (x y : Traced α) :
    (if c then x else y).val = if c then x.val else y.val := apply_ite _ _ _ _

/-- Nothing of the image is read. -/
def ImageRun.Quiet (x : ImageRun α) : Prop := x.reads = [] ∧ x.kernel = none

theorem ImageRun.Quiet.ret (a : α) : (pure a : ImageRun α).Quiet := ⟨rfl, rfl⟩

theorem ImageRun.Quiet.ite {c : Prop} [Decidable c] {x y : ImageRun α} (hx : x.Quiet)
    (hy : y.Quiet) : (if c then x else y).Quiet := by
  by_cases hc : c
  · rwa [if_pos hc]
  · rwa [if_neg hc]

end Runs

def readImage (loadImageBytes : Nat → Nat → Int × Bytes) (size offset : Nat) :
    ImageRun (Int × Bytes) :=
  ⟨loadImageBytes size offset, [(size, offset)], none⟩

theorem readImage_bind {β : Type} (load : Nat → Nat → Int × Bytes) (size offset : Nat)
    (f : Int × Bytes → ImageRun β) :
    (readImage load size offset >>= f).val = (f (load size offset)).val ∧
      (readImage load size offset >>= f).reads = (size, offset) :: (f (load size offset)).reads ∧
      (readImage load size offset >>= f).kernel = (f (load size offset)).kernel :=
  ⟨rfl, rfl, Option.or_none⟩

/-- The buffer is the mapped memory of the domain. -/
def copyImage (loadImageBytes : Nat → Nat → Int × Bytes) (size offset : Nat) : ImageRun Int :=
  ⟨(loadImageBytes size offset).1, [(size, offset)], some (loadImageBytes size offset).2⟩

/-- `probe_zimage` with the calls of `load_image_bytes`. -/
def probeZimageReads (env : CreateEnv) (uimage : Bool) (baseAddr : UInt64) (imageReadOffset : Nat)
    (cfg : XenDomainCfg) : ImageRun (Int × UInt64) := do
  match cfg.loadImageBytes, cfg.getImageSize with
  | some loadImageBytes, some imageSize =>
    let zhdr ← readImage loadImageBytes imageHeaderSize imageReadOffset
    if zhdr.1 < 0 then return (zhdr.1, 0)
    let loadAddr := baseAddr + UInt64.ofNat (le64At zhdr.2 8)
    if imageSize.1 < 0 ∨ imageSize.2 = 0 then return (imageSize.1, 0)
    let rc := env.rc (.probe uimage .genFdt)
    if rc ≠ 0 ∨ env.fdtSize = 0 then return (Errno.enomem.rc, 0)
    if getDtbAddr baseAddr (cfg.memKb * 1024) loadAddr imageSize.2 env.fdtSize = 0 then
      return (rc, 0)
    let rc := (loadDtb env uimage).val
    if rc ≠ 0 then return (rc, 0)
    let rc := env.rc (.probe uimage .mapImage)
    if rc ≠ 0 then return (rc, 0)
    let rc ← copyImage loadImageBytes imageSize.2.toNat imageReadOffset
    if rc < 0 then return (rc, 0)
    let errCacheFlush := env.rc (.probe uimage .flushImage)
    let rc := env.rc (.probe uimage .unmapImage)
    if rc ≠ 0 then return (rc, 0)
    if errCacheFlush ≠ 0 then return (errCacheFlush, 0)
    return (0, loadAddr)
  | _, _ => return (Errno.einval.rc, 0)

def probeUimageReads (env : CreateEnv) (cfg : XenDomainCfg) : ImageRun (Int × UInt64) := do
  match cfg.loadImageBytes with
  | none => return (Errno.einval.rc, 0)
  | some loadImageBytes =>
    let uhdr ← readImage loadImageBytes imageHeaderSize 0
    if uhdr.1 < 0 then return (uhdr.1, 0)
    let memSize := if cfg.memKb * 1024 > guestRam0Size then guestRam0Size else cfg.memKb * 1024
    let len := UInt64.ofNat (be32At uhdr.2 12)
    let baseAddr := UInt64.ofNat (be32At uhdr.2 16)
    if be32At uhdr.2 0 ≠ uimageMagic then return (Errno.einval.rc, 0)
    if baseAddr < guestRam0Base ∨ baseAddr > guestRam0Base + memSize then
      return (Errno.einval.rc, 0)
    if baseAddr + len > guestRam0Base + memSize then return (Errno.einval.rc, 0)
    probeZimageReads env true baseAddr imageHeaderSize cfg

def loadModulesReads (env : CreateEnv) (cfg : XenDomainCfg) : ImageRun (Int × UInt64) := do
  let rc := (prepareDomainPhysmap env).val
  if rc ≠ 0 then return (rc, 0)
  let uimage ← probeUimageReads env cfg
  if uimage.1 ≠ 0 then probeZimageReads env false guestRam0Base 0 cfg else return uimage

section Values
variable (env : CreateEnv) (cfg : XenDomainCfg)

theorem probeZimageReads_val (uimage : Bool) (baseAddr : UInt64) (offset : Nat) :
    (probeZimageReads env uimage baseAddr offset cfg).val =
      (probeZimage env uimage baseAddr offset cfg).val := by
  unfold probeZimageReads probeZimage
  cases cfg.loadImageBytes with
  | none => rfl
  | some load =>
    cases cfg.getImageSize with
    | none => rfl
    | some size =>
      simp only [ImageRun.val_bind, ImageRun.val_ite, ImageRun.val_pure, Traced.val_bind,
        Traced.val_ite, Traced.val_pure, readImage, copyImage, CreateEnv.call]

theorem probeUimageReads_val :
    (probeUimageReads env cfg).val = (probeUimage env cfg).val := by
  unfold probeUimageReads probeUimage
  cases cfg.loadImageBytes with
  | none => rfl
  | some load =>
    simp only [ImageRun.val_bind, ImageRun.val_ite, ImageRun.val_pure, Traced.val_ite,
      Traced.val_pure, readImage, probeZimageReads_val]

theorem loadModulesReads_val : (loadModulesReads env cfg).val = (loadModules env cfg).val := by
  unfold loadModulesReads loadModules
  simp only [ImageRun.val_bind, ImageRun.val_ite, ImageRun.val_pure, Traced.val_bind,
    Traced.val_ite, Traced.val_pure, probeZimageReads_val, probeUimageReads_val]

end Values

/-- The callback serves the bytes of the image; behind its end it may do anything. -/
def Serves (loadImageBytes : Nat → Nat → Int × Bytes) (image : Bytes) : Prop :=
  ∀ size offset, offset + size ≤ image.length → 0 ≤ (loadImageBytes size offset).1 →
    (loadImageBytes size offset).2 = (image.drop offset).take size

section Attempts
variable {env : CreateEnv} {cfg : XenDomainCfg} {load : Nat → Nat → Int × Bytes}
  {size : Int × UInt64}

/-- The address that `probe_zimage` loads the image to, when its header is read from `offset`. -/
def loadAddress (load : Nat → Nat → Int × Bytes) (baseAddr : UInt64) (offset : Nat) : UInt64 :=
  baseAddr + UInt64.ofNat (le64At (load imageHeaderSize offset).2 8)

def DtbInside (env : CreateEnv) (cfg : XenDomainCfg) (load : Nat → Nat → Int × Bytes)
    (imageSize : UInt64) (baseAddr : UInt64) (offset : Nat) : Prop :=
  getDtbAddr baseAddr (cfg.memKb * 1024) (loadAddress load baseAddr offset) imageSize
    env.fdtSize ≠ 0

/-- An attempt reads its header and then the image, and puts that into the pages of the domain. -/
structure Attempt (env : CreateEnv) (cfg : XenDomainCfg) (load : Nat → Nat → Int × Bytes)
    (imageSize : UInt64) (baseAddr : UInt64) (offset : Nat) (x : ImageRun (Int × UInt64)) :
    Prop where
  header : (imageHeaderSize, offset) ∈ x.reads
  only : ∀ r ∈ x.reads, r = (imageHeaderSize, offset) ∨ r = (imageSize.toNat, offset)
  kernel : ∀ bytes, x.kernel = some bytes →
    (imageSize.toNat, offset) ∈ x.reads ∧ bytes = (load imageSize.toNat offset).2
  headerRc : x.val.1 = 0 → 0 ≤ (load imageHeaderSize offset).1
  copied : x.val.1 = 0 → imageSize ≠ 0 →
    (x.kernel.isSome ↔ DtbInside env cfg load imageSize baseAddr offset)
  copyRc : x.val.1 = 0 → x.kernel.isSome → 0 ≤ (load imageSize.toNat offset).1

section Rest
variable {imageSize : UInt64} {baseAddr : UInt64} {offset : Nat}

/-- An attempt behind its header: it ends without the image, or reads it. -/
def Rest (env : CreateEnv) (cfg : XenDomainCfg) (load : Nat → Nat → Int × Bytes)
    (imageSize : UInt64) (baseAddr : UInt64) (offset : Nat) (x : ImageRun (Int × UInt64)) : Prop :=
  (x.Quiet ∧ (x.val.1 = 0 → 0 ≤ (load imageHeaderSize offset).1 ∧
    (imageSize ≠ 0 → ¬ DtbInside env cfg load imageSize baseAddr offset))) ∨
  (x.reads = [(imageSize.toNat, offset)] ∧ x.kernel = some (load imageSize.toNat offset).2 ∧
    DtbInside env cfg load imageSize baseAddr offset ∧
    (x.val.1 = 0 → 0 ≤ (load imageHeaderSize offset).1 ∧ 0 ≤ (load imageSize.toNat offset).1))

theorem Rest.ite {c : Prop} [Decidable c] {x y : ImageRun (Int × UInt64)}
    (hx : c → Rest env cfg load imageSize baseAddr offset x)
    (hy : ¬ c → Rest env cfg load imageSize baseAddr offset y) :
    Rest env cfg load imageSize baseAddr offset (if c then x else y) := by
  by_cases hc : c
  · rw [if_pos hc]
    exact hx hc
  · rw [if_neg hc]
    exact hy hc

theorem Rest.stopped (r : Int × UInt64) (h : r.1 = 0 → 0 ≤ (load imageHeaderSize offset).1 ∧
    (imageSize ≠ 0 → ¬ DtbInside env cfg load imageSize baseAddr offset)) :
    Rest env cfg load imageSize baseAddr offset (pure r) :=
  Or.inl ⟨⟨rfl, rfl⟩, h⟩

theorem Rest.copied {f : Int → ImageRun (Int × UInt64)}
    (hplaced : DtbInside env cfg load imageSize baseAddr offset)
    (hhdr : 0 ≤ (load imageHeaderSize offset).1)
    (hf : (f (load imageSize.toNat offset).1).Quiet)
    (hrc : (f (load imageSize.toNat offset).1).val.1 = 0 → 0 ≤ (load imageSize.toNat offset).1) :
    Rest env cfg load imageSize baseAddr offset
      (copyImage load imageSize.toNat offset >>= f) := by
  refine Or.inr ⟨?_, ?_, hplaced, fun h => ⟨hhdr, hrc h⟩⟩
  · rw [ImageRun.reads_bind]
    exact (congrArg _ hf.1).trans (List.append_nil _)
  · rw [ImageRun.kernel_bind]
    exact (congrArg (Option.or · _) hf.2).trans Option.none_or

theorem Attempt.behind {f : Int × Bytes → ImageRun (Int × UInt64)}
    (h : Rest env cfg load imageSize baseAddr offset (f (load imageHeaderSize offset))) :
    Attempt env cfg load imageSize baseAddr offset
      (readImage load imageHeaderSize offset >>= f) := by
  obtain ⟨hval, hreads, hkernel⟩ := readImage_bind load imageHeaderSize offset f
  generalize f (load imageHeaderSize offset) = x at h hval hreads hkernel
  generalize readImage load imageHeaderSize offset >>= f = y at hval hreads hkernel ⊢
  rcases h with ⟨⟨hr, hk⟩, hrc⟩ | ⟨hr, hk, hplaced, hrc⟩
  · rw [hr] at hreads
    rw [hk] at hkernel
    refine ⟨by simp [hreads], fun r h => ?_, fun bytes h => ?_, fun h => ?_, fun h hne => ?_,
      fun _ h => ?_⟩
    · exact Or.inl (by simpa [hreads] using h)
    · simp [hkernel] at h
    · exact (hrc (hval ▸ h)).1
    · simpa [hkernel] using (hrc (hval ▸ h)).2 hne
    · simp [hkernel] at h
  · rw [hr] at hreads
    rw [hk] at hkernel
    refine ⟨by simp [hreads], fun r h => by simpa [hreads] using h, fun bytes h => ?_, fun h => ?_,
      fun _ _ => by simp [hkernel, hplaced], fun h _ => (hrc (hval ▸ h)).2⟩
    · rw [hkernel] at h
      exact ⟨by simp [hreads], (Option.some.inj h).symm⟩
    · exact (hrc (hval ▸ h)).1

end Rest

theorem probeZimageReads_attempt (hload : cfg.loadImageBytes = some load)
    (hsize : cfg.getImageSize = some size) (uimage : Bool) (baseAddr : UInt64) (offset : Nat) :
    Attempt env cfg load size.2 baseAddr offset
      (probeZimageReads env uimage baseAddr offset cfg) := by
  unfold probeZimageReads
  simp only [hload, hsize]
  refine .behind (.ite (fun hhdr => .stopped _ fun h => ?_) fun hhdr => ?_)
  · have hrc : (load imageHeaderSize offset).1 = 0 := h
    omega
  have hhdr' : 0 ≤ (load imageHeaderSize offset).1 := by omega
  refine .ite (fun hnone => .stopped _ fun h => ⟨hhdr', fun hne => ?_⟩) fun _ => ?_
  · have hrc : size.1 = 0 := h
    have hneg := hnone.resolve_right hne
    omega
  refine .ite (fun _ => .stopped _ fun h => absurd h (by decide)) fun _ => ?_
  refine .ite (fun hdtb => .stopped _ fun _ => ⟨hhdr', fun _ h => h hdtb⟩) fun hdtb => ?_
  refine .ite (fun hne => .stopped _ fun h => absurd h hne) fun _ => ?_
  refine .ite (fun hne => .stopped _ fun h => absurd h hne) fun _ => ?_
  refine .copied hdtb hhdr' ?_ fun h => ?_
  · exact .ite (.ret _) (.ite (.ret _) (.ite (.ret _) (.ret _)))
  · by_contra hneg
    have hlt : (load size.2.toNat offset).1 < 0 := by omega
    simp only [if_pos hlt, ImageRun.val_pure] at h
    omega

/-- The attempt as uImage reads the first header, and goes on where that has the magic. -/
def UimageCases (env : CreateEnv) (cfg : XenDomainCfg) (load : Nat → Nat → Int × Bytes)
    (x : ImageRun (Int × UInt64)) : Prop :=
  (x.Quiet ∧ x.val.1 ≠ 0) ∨
  (0 ≤ (load imageHeaderSize 0).1 ∧ be32At (load imageHeaderSize 0).2 0 = uimageMagic ∧
    ∃ baseAddr, x = probeZimageReads env true baseAddr imageHeaderSize cfg)

theorem UimageCases.ite {c : Prop} [Decidable c] {x y : ImageRun (Int × UInt64)}
    (hx : c → UimageCases env cfg load x) (hy : ¬ c → UimageCases env cfg load y) :
    UimageCases env cfg load (if c then x else y) := by
  by_cases hc : c
  · rw [if_pos hc]
    exact hx hc
  · rw [if_neg hc]
    exact hy hc

theorem UimageCases.stopped {r : Int × UInt64} (h : r.1 ≠ 0) :
    UimageCases env cfg load (pure r) := Or.inl ⟨.ret r, h⟩

theorem probeUimageReads_cases (hload : cfg.loadImageBytes = some load) :
    ∃ x, UimageCases env cfg load x ∧ (probeUimageReads env cfg).val = x.val ∧
      (probeUimageReads env cfg).reads = (imageHeaderSize, 0) :: x.reads ∧
      (probeUimageReads env cfg).kernel = x.kernel := by
  have heinval : Errno.einval.rc ≠ 0 := by decide
  unfold probeUimageReads
  simp only [hload]
  refine ⟨_, ?_, readImage_bind load imageHeaderSize 0 _⟩
  refine .ite (fun hneg => .stopped ?_) fun hpos => ?_
  · have hlt : (load imageHeaderSize 0).1 < 0 := hneg
    exact fun h => absurd (show (load imageHeaderSize 0).1 = 0 from h) (by omega)
  refine .ite (fun _ => .stopped heinval) fun hmagic => ?_
  refine .ite (fun _ => .stopped heinval) fun _ => ?_
  refine .ite (fun _ => .stopped heinval) fun _ => ?_
  exact Or.inr ⟨not_lt.mp hpos, not_not.mp hmagic, _, rfl⟩

end Attempts

/-- The image starts with the magic of a uImage header. -/
def HasUimageHeader (image : Bytes) : Prop := be32At image 0 = uimageMagic

instance (image : Bytes) : Decidable (HasUimageHeader image) :=
  inferInstanceAs (Decidable (_ = _))

def kernelOffset (image : Bytes) : Nat := if HasUimageHeader image then imageHeaderSize else 0

/-- All reads stay inside the image, and what is behind its header is what the domain gets. -/
structure LoadsInside (env : CreateEnv) (cfg : XenDomainCfg) (image : Bytes) : Prop where
  inside : ∀ r ∈ (loadModulesReads env cfg).reads, r.2 + r.1 ≤ image.length
  kernel : (loadModulesReads env cfg).kernel = some (image.drop (kernelOffset image))

section Image
variable {env : CreateEnv} {cfg : XenDomainCfg} {load : Nat → Nat → Int × Bytes}
  {size : Int × UInt64} {image : Bytes}

theorem be32At_take {image : Bytes} : be32At (image.take imageHeaderSize) 0 = be32At image 0 := by
  simp [be32At, imageHeaderSize, List.take_take]

def imageAddress (image : Bytes) : UInt64 := guestRam0Base + UInt64.ofNat (le64At image 8)

theorem loadAddress_image (hserves : Serves load image) (hlen : imageHeaderSize ≤ image.length)
    (hrc : 0 ≤ (load imageHeaderSize 0).1) :
    loadAddress load guestRam0Base 0 = imageAddress image := by
  have hbytes := hserves imageHeaderSize 0 (by omega) hrc
  have hfield : le64At ((image.drop 0).take imageHeaderSize) 8 = le64At image 8 := by
    simp [le64At, imageHeaderSize, List.take_take, List.drop_take]
  rw [loadAddress, hbytes, hfield]
  rfl

theorem loadModulesReads_cases (hrc : (loadModulesReads env cfg).val.1 = 0) :
    ((probeUimageReads env cfg).val.1 ≠ 0 ∧
      (probeZimageReads env false guestRam0Base 0 cfg).val.1 = 0 ∧
      (loadModulesReads env cfg).reads = (probeUimageReads env cfg).reads ++
        (probeZimageReads env false guestRam0Base 0 cfg).reads ∧
      (loadModulesReads env cfg).kernel =
        (probeZimageReads env false guestRam0Base 0 cfg).kernel.or
          (probeUimageReads env cfg).kernel) ∨
    ((probeUimageReads env cfg).val.1 = 0 ∧
      (loadModulesReads env cfg).reads = (probeUimageReads env cfg).reads ∧
      (loadModulesReads env cfg).kernel = (probeUimageReads env cfg).kernel) := by
  unfold loadModulesReads at hrc ⊢
  by_cases hprep : (prepareDomainPhysmap env).val = 0
  · by_cases hu : (probeUimageReads env cfg).val.1 = 0
    · refine Or.inr ⟨hu, ?_, ?_⟩ <;> simp [hprep, hu]
    · refine Or.inl ⟨hu, ?_, ?_, ?_⟩
      · simpa [hprep, hu] using hrc
      · simp [hprep, hu]
      · simp [hprep, hu]
  · simp [hprep] at hrc

/-- A place for the device tree of a plain image. -/
def PlainPlaced (env : CreateEnv) (cfg : XenDomainCfg) (image : Bytes) (imageSize : UInt64) :
    Prop :=
  getDtbAddr guestRam0Base (cfg.memKb * 1024) (imageAddress image) imageSize env.fdtSize ≠ 0

instance (env : CreateEnv) (cfg : XenDomainCfg) (image : Bytes) (imageSize : UInt64) :
    Decidable (PlainPlaced env cfg image imageSize) :=
  inferInstanceAs (Decidable (_ ≠ _))

theorem LoadsInside.plain (h : LoadsInside env cfg image) (hload : cfg.loadImageBytes = some load)
    (hsize : cfg.getImageSize = some size) (hserves : Serves load image)
    (hn : size.2.toNat = image.length) (hrc : (loadModules env cfg).val.1 = 0) :
    ¬ HasUimageHeader image ∧ imageHeaderSize ≤ image.length ∧
      PlainPlaced env cfg image size.2 := by
  rw [← loadModulesReads_val] at hrc
  obtain ⟨x, hx, huval, hureads, hukernel⟩ := @probeUimageReads_cases env cfg load hload
  have hinside := h.inside
  have hkernel := h.kernel
  have hfirst : (imageHeaderSize, 0) ∈ (loadModulesReads env cfg).reads := by
    rcases loadModulesReads_cases hrc with ⟨-, -, hreads, -⟩ | ⟨-, hreads, -⟩ <;>
      simp [hreads, hureads]
  have hlen : imageHeaderSize ≤ image.length := by simpa using hinside _ hfirst
  have hpos : 0 < image.length := Nat.lt_of_lt_of_le (by decide) hlen
  have hne : size.2 ≠ 0 := by
    intro hzero
    rw [hzero] at hn
    simp at hn
    omega
  -- a read of the whole image from behind its header goes past the end
  have hpast : ∀ baseAddr bytes,
      (∀ r ∈ (probeZimageReads env true baseAddr imageHeaderSize cfg).reads,
        r ∈ (loadModulesReads env cfg).reads) →
      (probeZimageReads env true baseAddr imageHeaderSize cfg).kernel ≠ some bytes := by
    intro baseAddr bytes hsub hk
    have hz := @probeZimageReads_attempt env cfg load size hload hsize true baseAddr imageHeaderSize
    have hread := hz.kernel bytes hk
    have hover := hinside _ (hsub _ hread.1)
    simp only [imageHeaderSize, hn] at hover
    omega
  rcases loadModulesReads_cases hrc with ⟨hufail, hzok, hreads, hk⟩ | ⟨huok, hreads, hk⟩
  · have hz := @probeZimageReads_attempt env cfg load size hload hsize false guestRam0Base 0
    cases hzk : (probeZimageReads env false guestRam0Base 0 cfg).kernel with
    | none =>
      -- what is in the pages comes from the attempt as uImage
      exfalso
      rw [hkernel, hzk, Option.none_or, hukernel] at hk
      rcases hx with ⟨⟨-, hquiet⟩, -⟩ | ⟨-, -, baseAddr, rfl⟩
      · rw [hquiet] at hk
        cases hk
      · refine hpast baseAddr _ (fun r hr => ?_) hk.symm
        rw [hreads, hureads]
        exact List.mem_append_left _ (List.mem_cons_of_mem _ hr)
    | some bytes =>
      have hsome : (probeZimageReads env false guestRam0Base 0 cfg).kernel.isSome := by
        rw [hzk]
        rfl
      have hbytes := (hz.kernel bytes hzk).2
      rw [hn, hserves image.length 0 (by omega) (hn ▸ hz.copyRc hzok hsome), List.drop_zero,
        List.take_length] at hbytes
      rw [hkernel, hzk, Option.some_or, hbytes, Option.some.injEq] at hk
      have hplaced := (hz.copied hzok hne).mp hsome
      rw [DtbInside, loadAddress_image hserves hlen (hz.headerRc hzok)] at hplaced
      refine ⟨fun hmagic => ?_, hlen, hplaced⟩
      have hdrop := congrArg List.length hk
      rw [List.length_drop, kernelOffset, if_pos hmagic, imageHeaderSize] at hdrop
      omega
  · exfalso
    rw [hkernel, hukernel] at hk
    rcases hx with ⟨-, hfail⟩ | ⟨-, -, baseAddr, rfl⟩
    · exact hfail (huval ▸ huok)
    · refine hpast baseAddr _ (fun r hr => ?_) hk.symm
      rw [hreads, hureads]
      exact List.mem_cons_of_mem _ hr

/-- When the image is loaded, all reads have stayed inside it and its kernel has been copied exactly
where it is a plain image, no shorter than a header, with a place for the device tree. -/
theorem loadsInside_iff (env : CreateEnv) (cfg : XenDomainCfg) (load : Nat → Nat → Int × Bytes)
    (size : Int × UInt64) (image : Bytes) (hload : cfg.loadImageBytes = some load)
    (hsize : cfg.getImageSize = some size) (hserves : Serves load image)
    (hn : size.2.toNat = image.length) (hrc : (loadModules env cfg).val.1 = 0) :
    LoadsInside env cfg image ↔ ¬ HasUimageHeader image ∧ imageHeaderSize ≤ image.length ∧
      PlainPlaced env cfg image size.2 := by
  refine ⟨fun h => h.plain hload hsize hserves hn hrc, ?_⟩
  rintro ⟨hplain, hlen, hplaced⟩
  rw [← loadModulesReads_val] at hrc
  obtain ⟨x, hx, huval, hureads, hukernel⟩ := @probeUimageReads_cases env cfg load hload
  have hne : size.2 ≠ 0 := by
    intro hzero
    rw [hzero] at hn
    simp [imageHeaderSize] at hn hlen
    omega
  rcases hx with ⟨⟨hxreads, hxkernel⟩, hfail⟩ | ⟨hpos, hmagic, -⟩
  · rcases loadModulesReads_cases hrc with ⟨-, hzok, hreads, hk⟩ | ⟨huok, -, -⟩
    · have hz := @probeZimageReads_attempt env cfg load size hload hsize false guestRam0Base 0
      have hsome : (probeZimageReads env false guestRam0Base 0 cfg).kernel.isSome := by
        refine (hz.copied hzok hne).mpr ?_
        rw [DtbInside, loadAddress_image hserves hlen (hz.headerRc hzok)]
        exact hplaced
      obtain ⟨bytes, hzk⟩ := Option.isSome_iff_exists.mp hsome
      have hbytes := (hz.kernel bytes hzk).2
      rw [hn, hserves image.length 0 (by omega) (hn ▸ hz.copyRc hzok hsome), List.drop_zero,
        List.take_length] at hbytes
      refine ⟨fun r hr => ?_, ?_⟩
      · rw [hreads, hureads, hxreads] at hr
        rcases List.mem_append.mp hr with hr | hr
        · obtain rfl := List.mem_singleton.mp hr
          simpa using hlen
        · rcases hz.only r hr with rfl | rfl
          · simpa using hlen
          · simp [hn]
      · rw [hk, hzk, hbytes, Option.some_or, kernelOffset, if_neg hplain, List.drop_zero]
    · exact absurd (huval ▸ huok) hfail
  · -- the first header is that of the image
    rw [hserves imageHeaderSize 0 (by omega) hpos, List.drop_zero, be32At_take] at hmagic
    exact absurd hmagic hplain

end Image

def imageBytes (image : Bytes) (size offset : Nat) : Int × Bytes :=
  (0, (image.drop offset).take size)

theorem imageBytes_serves (image : Bytes) : Serves (imageBytes image) image :=
  fun _ _ _ _ => rfl

/-- A guest with 256 MiB that boots this image, and no call fails. -/
def bootCfg (image : Bytes) : XenDomainCfg where
  name := []
  domainName := []
  memKb := 0x40000
  gntFrames := 0
  maxVcpus := 1
  nrIomems := 0
  nrIrqs := 0
  nrDtdevs := 0
  seclabel := none
  loadImageBytes := some (imageBytes image)
  getImageSize := some (0, UInt64.ofNat image.length)
  fPaused := false

def bootEnv : CreateEnv where
  rc _ := 0
  flask := false
  domid := 1
  fdtSize := 4096
  infos := []

/-- A plain image of a header and 16 bytes of code, all bytes different. -/
def plainBytes : Bytes := (List.range 80).map UInt8.ofNat

theorem loadsInside_plain : LoadsInside bootEnv (bootCfg plainBytes) plainBytes :=
  (loadsInside_iff bootEnv (bootCfg plainBytes) _ _ plainBytes rfl rfl
    (imageBytes_serves _) (by decide +kernel) (by decide +kernel)).mpr
    ⟨by decide +kernel, by decide +kernel, by decide +kernel⟩

/-- A uImage of 128 bytes: the magic, and the load address in the first bank. -/
def uimageBytes : Bytes :=
  [0x27, 0x05, 0x19, 0x56] ++ List.replicate 12 0 ++ [0x40, 0, 0, 0] ++ List.replicate 108 0

/-- All 128 bytes are read from behind the header. -/
theorem uimage_read_past_end :
    ¬ ∀ (env : CreateEnv) (cfg : XenDomainCfg) (load : Nat → Nat → Int × Bytes)
        (size : Int × UInt64) (image : Bytes), cfg.loadImageBytes = some load →
        cfg.getImageSize = some size → Serves load image → size.2.toNat = image.length →
        (loadModules env cfg).val.1 = 0 → LoadsInside env cfg image := by
  intro h
  have hinside := (h bootEnv (bootCfg uimageBytes) _ _ uimageBytes rfl rfl (imageBytes_serves _)
    (by decide +kernel) (by decide +kernel)).inside (128, 64) (by decide +kernel)
  exact absurd hinside (by decide +kernel)

end Xenlib
