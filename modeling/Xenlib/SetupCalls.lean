import Xenlib.DomCreate

/-!
The calls before the services start. Most of them end `domain_create` when they fail; a few are
only logged, and an image that could not be loaded as uImage is loaded as zImage.
-/

set_option autoImplicit false

namespace Xenlib

section Traced
variable {α β : Type}

@[simp] theorem Traced.val_pure (a : α) : (pure a : Traced α).val = a := rfl

@[simp] theorem Traced.calls_pure (a : α) : (pure a : Traced α).calls = [] := rfl

@[simp] theorem Traced.val_bind (x : Traced α) (f : α → Traced β) :
    (x >>= f).val = (f x.val).val := rfl

@[simp] theorem Traced.calls_bind (x : Traced α) (f : α → Traced β) :
    (x >>= f).calls = x.calls ++ (f x.val).calls := rfl

theorem Traced.val_check_zero {x y : Traced Int} (h : x.val = 0) :
    (x >>= fun rc => if rc ≠ 0 then pure rc else y).val = y.val := by
  simp [h]

end Traced

/-- The same calls, of which `p` does not fail. -/
def CreateEnv.mended (env : CreateEnv) (p : CreateCall) : CreateEnv :=
  { env with rc := Function.update env.rc p 0 }

theorem CreateEnv.mended_call {env : CreateEnv} {p c : CreateCall} (h : c ≠ p) :
    (env.mended p).call c = env.call c := by
  simp [mended, call, Function.update_of_ne h]

section Reports
variable {α β : Type} {p : CreateCall}

/-- When `p` is called the result is `bad`; otherwise mending it makes no difference. -/
structure Reports (p : CreateCall) (bad : α → Prop) (x x' : Traced α) : Prop where
  failed : p ∈ x.calls → bad x.val
  same : p ∉ x.calls → x' = x

theorem Reports.ret {bad : α → Prop} (a : α) :
    Reports p bad (pure a : Traced α) (pure a) :=
  ⟨fun h => by simp at h, fun _ => rfl⟩

theorem Reports.bind {bad : α → Prop} {bad' : β → Prop} {x x' : Traced α}
    {f f' : α → Traced β} (hx : Reports p bad x x') (hbad : bad x.val → bad' (f x.val).val)
    (hf : Reports p bad' (f x.val) (f' x.val)) : Reports p bad' (x >>= f) (x' >>= f') := by
  constructor
  · intro h
    rw [Traced.calls_bind, List.mem_append] at h
    rcases h with h | h
    · exact hbad (hx.failed h)
    · exact hf.failed h
  · intro h
    rw [Traced.calls_bind, List.mem_append, not_or] at h
    rw [hx.same h.1]
    show Traced.mk _ _ = Traced.mk _ _
    rw [hf.same h.2]

theorem Reports.ite {bad : α → Prop} {c : Prop} [Decidable c] {x x' y y' : Traced α}
    (hx : Reports p bad x x') (hy : Reports p bad y y') :
    Reports p bad (if c then x else y) (if c then x' else y') := by
  split
  · exact hx
  · exact hy

theorem Reports.check {x x' y y' : Traced Int} (hx : Reports p (· < 0) x x')
    (hy : Reports p (· < 0) y y') :
    Reports p (· < 0) (x >>= fun rc => if rc ≠ 0 then pure rc else y)
      (x' >>= fun rc => if rc ≠ 0 then pure rc else y') := by
  refine hx.bind (fun hrc => ?_) (.ite (.ret _) hy)
  rw [if_pos (by omega)]
  exact hrc

theorem Reports.checkNeg {x x' y y' : Traced Int} (hx : Reports p (· < 0) x x')
    (hy : Reports p (· < 0) y y') :
    Reports p (· < 0) (x >>= fun rc => if rc < 0 then pure rc else y)
      (x' >>= fun rc => if rc < 0 then pure rc else y') := by
  refine hx.bind (fun hrc => ?_) (.ite (.ret _) hy)
  rw [if_pos hrc]
  exact hrc

variable {env : CreateEnv}

theorem reports_call (hp : env.rc p < 0) (c : CreateCall) :
    Reports p (· < 0) (env.call c) ((env.mended p).call c) := by
  constructor
  · intro h
    obtain rfl : p = c := by simpa [CreateEnv.call] using h
    exact hp
  · intro h
    exact CreateEnv.mended_call fun heq => h (by simp [CreateEnv.call, heq])

theorem reports_other {c : CreateCall} (h : c ≠ p) (bad : Int → Prop) :
    Reports p bad (env.call c) ((env.mended p).call c) :=
  ⟨fun hmem => absurd (by simpa [CreateEnv.call] using hmem) h.symm,
    fun _ => CreateEnv.mended_call h⟩

theorem reports_allocateDomainEvtchns (hp : env.rc p < 0) :
    Reports p (· < 0) (allocateDomainEvtchns env) (allocateDomainEvtchns (env.mended p)) :=
  .checkNeg (reports_call hp .storeEvtchn) (.checkNeg (reports_call hp .consoleEvtchn) (.ret 0))

/-- The calls that return 0 when they do not fail. -/
def CreateEnv.Plain (env : CreateEnv) : Prop :=
  ∀ c, c ≠ .storeEvtchn → c ≠ .consoleEvtchn → c ≠ .bindStore → c ≠ .bindConsole → env.rc c ≤ 0

theorem reports_allocateMagicPages (hp : env.rc p < 0) (hne : p ≠ .unmapMagic) :
    Reports p (· < 0) (allocateMagicPages env) (allocateMagicPages (env.mended p)) := by
  refine (reports_call hp .populateMagic).bind (fun hrc => ?_) (.ite (.ret _) ?_)
  · rw [if_pos (by omega)]
    decide
  refine .check (reports_call hp .mapMagic) ?_
  refine (reports_call hp .flushMagic).bind (fun hrc => ?_) ?_
  · have hne0 : (env.call .flushMagic).val ≠ 0 := by omega
    simpa [hne0] using hrc
  refine (reports_other hne.symm (fun _ => False)).bind (fun h => h.elim) (.ite (.ret _) ?_)
  exact .check (reports_call hp .consolePfn) (reports_call hp .storePfn)

theorem reports_prepareDomainPhysmap (hp : env.rc p < 0) (hne : p ≠ .unmapMagic) :
    Reports p (· < 0) (prepareDomainPhysmap env) (prepareDomainPhysmap (env.mended p)) := by
  refine .check (reports_allocateMagicPages hp hne) ?_
  refine (reports_call hp .populateRam).bind (fun hrc => ?_) (.ite (.ret _) (.ret _))
  rw [if_pos (by omega)]
  decide

theorem reports_loadDtb (hle : env.Plain) (hp : env.rc p < 0) (uimage : Bool) :
    Reports p (· < 0) (loadDtb env uimage) (loadDtb (env.mended p) uimage) := by
  have hflush : (env.call (.probe uimage .flushDtb)).val ≤ 0 :=
    hle _ (by simp) (by simp) (by simp) (by simp)
  refine .check (reports_call hp _) ?_
  refine (reports_call hp _).bind (fun hrc => ?_) ?_
  · have hne0 : (env.call (.probe uimage .flushDtb)).val ≠ 0 := by omega
    simpa [hne0] using hrc
  refine (reports_call hp _).bind (fun hrc => ?_) (.ite (.ret _) (.ret _))
  split
  · exact lt_of_le_of_ne hflush ‹_›
  · exact hrc

theorem Reports.checkPair {x x' : Traced Int} {y y' : Traced (Int × UInt64)}
    (hx : Reports p (· < 0) x x') (hy : Reports p (fun r => r.1 < 0) y y') :
    Reports p (fun r => r.1 < 0) (x >>= fun rc => if rc ≠ 0 then pure (rc, 0) else y)
      (x' >>= fun rc => if rc ≠ 0 then pure (rc, 0) else y') := by
  refine hx.bind (fun hrc => ?_) (.ite (.ret _) hy)
  rw [if_pos (by omega)]
  exact hrc

theorem reports_probeZimage (hle : env.Plain) (hp : env.rc p < 0) (uimage : Bool)
    (baseAddr : UInt64) (offset : Nat) (cfg : XenDomainCfg) :
    Reports p (fun r => r.1 < 0) (probeZimage env uimage baseAddr offset cfg)
      (probeZimage (env.mended p) uimage baseAddr offset cfg) := by
  have hunmap : (env.call (.probe uimage .unmapImage)).val ≤ 0 :=
    hle _ (by simp) (by simp) (by simp) (by simp)
  unfold probeZimage
  cases cfg.loadImageBytes with
  | none => exact .ret _
  | some load =>
    cases cfg.getImageSize with
    | none => exact .ret _
    | some size =>
      refine .ite (.ret _) (.ite (.ret _) ?_)
      refine (reports_call hp _).bind (fun hrc => ?_) (.ite (.ret _) (.ite (.ret _) ?_))
      · rw [if_pos (Or.inl (by omega))]
        decide
      refine .checkPair (reports_loadDtb hle hp uimage) (.checkPair (reports_call hp _) ?_)
      refine .ite (.ret _) ?_
      refine (reports_call hp _).bind (fun hrc => ?_) ?_
      · have hne0 : (env.call (.probe uimage .flushImage)).val ≠ 0 := by omega
        by_cases hu : (env.call (.probe uimage .unmapImage)).val = 0
        · simpa [hu, hne0] using hrc
        · simpa [hu] using lt_of_le_of_ne hunmap hu
      refine .checkPair (reports_call hp _) (.ite (.ret _) (.ret _))

theorem reports_probeUimage (hle : env.Plain) (hp : env.rc p < 0) (cfg : XenDomainCfg) :
    Reports p (fun r => r.1 < 0) (probeUimage env cfg) (probeUimage (env.mended p) cfg) := by
  unfold probeUimage
  cases cfg.loadImageBytes with
  | none => exact .ret _
  | some load =>
    refine .ite (.ret _) (.ite (.ret _) (.ite (.ret _) (.ite (.ret _) ?_)))
    exact reports_probeZimage hle hp true _ _ cfg

def Only (P : CreateCall → Prop) (x : Traced α) : Prop := ∀ c ∈ x.calls, P c

theorem Only.ret {P : CreateCall → Prop} (a : α) : Only P (pure a : Traced α) := by
  intro c hc
  simp at hc

theorem Only.call {P : CreateCall → Prop} {c : CreateCall} (h : P c) : Only P (env.call c) := by
  intro c' hc
  obtain rfl : c' = c := by simpa [CreateEnv.call] using hc
  exact h

theorem Only.bind {P : CreateCall → Prop} {x : Traced α} {f : α → Traced β} (hx : Only P x)
    (hf : ∀ a, Only P (f a)) : Only P (x >>= f) := by
  intro c hc
  rw [Traced.calls_bind, List.mem_append] at hc
  rcases hc with hc | hc
  · exact hx c hc
  · exact hf _ c hc

theorem Only.ite {P : CreateCall → Prop} {q : Prop} [Decidable q] {x y : Traced α}
    (hx : Only P x) (hy : Only P y) : Only P (if q then x else y) := by
  split
  · exact hx
  · exact hy

/-- The calls of the attempt as uImage, or of that as zImage. -/
def CreateCall.OfAttempt (uimage : Bool) (c : CreateCall) : Prop := ∃ call, c = .probe uimage call

theorem only_probeZimage (uimage : Bool) (baseAddr : UInt64) (offset : Nat) (cfg : XenDomainCfg) :
    Only (CreateCall.OfAttempt uimage) (probeZimage env uimage baseAddr offset cfg) := by
  have hcall : ∀ call, Only (CreateCall.OfAttempt uimage) (env.call (.probe uimage call)) :=
    fun call => .call ⟨call, rfl⟩
  have hdtb : Only (CreateCall.OfAttempt uimage) (loadDtb env uimage) :=
    (hcall _).bind fun _ => .ite (.ret _) ((hcall _).bind fun _ => (hcall _).bind fun _ =>
      .ite (.ret _) (.ret _))
  unfold probeZimage
  cases cfg.loadImageBytes with
  | none => exact .ret _
  | some load =>
    cases cfg.getImageSize with
    | none => exact .ret _
    | some size =>
      refine .ite (.ret _) (.ite (.ret _) ((hcall _).bind fun _ => ?_))
      refine .ite (.ret _) (.ite (.ret _) (hdtb.bind fun _ => .ite (.ret _) ?_))
      refine (hcall _).bind fun _ => .ite (.ret _) (.ite (.ret _) ?_)
      refine (hcall _).bind fun _ => (hcall _).bind fun _ => ?_
      exact .ite (.ret _) (.ite (.ret _) (.ret _))

theorem only_probeUimage (cfg : XenDomainCfg) :
    Only (CreateCall.OfAttempt true) (probeUimage env cfg) := by
  unfold probeUimage
  cases cfg.loadImageBytes with
  | none => exact .ret _
  | some load =>
    exact .ite (.ret _) (.ite (.ret _) (.ite (.ret _) (.ite (.ret _) (only_probeZimage _ _ _ _))))

theorem reports_loadModules (hle : env.Plain) (hp : env.rc p < 0) (hne : p ≠ .unmapMagic)
    (hu : ¬ p.OfAttempt true) (cfg : XenDomainCfg) :
    Reports p (fun r => r.1 < 0) (loadModules env cfg) (loadModules (env.mended p) cfg) := by
  refine .checkPair (reports_prepareDomainPhysmap hp hne) ?_
  have hx : Reports p (fun _ => False) (probeUimage env cfg) (probeUimage (env.mended p) cfg) :=
    ⟨fun h => hu (only_probeUimage cfg p h), (reports_probeUimage hle hp cfg).same⟩
  exact hx.bind (fun h => h.elim) (.ite (reports_probeZimage hle hp false _ _ cfg) (.ret _))

theorem reports_loadImage (hle : env.Plain) (hp : env.rc p < 0) (hne : p ≠ .unmapMagic)
    (hu : ¬ p.OfAttempt true) (cfg : XenDomainCfg) :
    Reports p (· < 0) (loadImage env cfg) (loadImage (env.mended p) cfg) := by
  refine (reports_loadModules hle hp hne hu cfg).bind (fun hrc => ?_)
    (.ite (.ret _) (.ite (.ret _) (.ret _)))
  rw [if_pos (by omega)]
  exact hrc

theorem val_shareDomainIomems (left i : Nat) (rc : Int) :
    (shareDomainIomems env left i rc).val =
      if left = 0 then rc else env.rc (.memoryMapping (i + left - 1)) := by
  induction left generalizing i rc with
  | zero => rfl
  | succ left ih =>
    show (shareDomainIomems env left (i + 1) (env.rc (.memoryMapping i))).val = _
    rw [ih]
    by_cases hl : left = 0
    · simp [hl]
    · simp only [hl, if_false, Nat.add_eq_zero_iff, false_and]
      congr 2
      omega

theorem val_bindDomainIrqs (left i : Nat) (rc : Int) :
    (bindDomainIrqs env left i rc).val =
      if left = 0 then rc else env.rc (.bindIrq (i + left - 1)) := by
  induction left generalizing i rc with
  | zero => rfl
  | succ left ih =>
    show (bindDomainIrqs env left (i + 1) (env.rc (.bindIrq i))).val = _
    rw [ih]
    by_cases hl : left = 0
    · simp [hl]
    · simp only [hl, if_false, Nat.add_eq_zero_iff, false_and]
      congr 2
      omega

theorem reports_shareDomainIomems (hp : env.rc p < 0) (hperm : ∀ j, p ≠ .iomemPermission j)
    {left i : Nat} (hlast : ∀ j, p = .memoryMapping j → i ≤ j → j < i + left → j + 1 = i + left)
    (rc : Int) :
    Reports p (· < 0) (shareDomainIomems env left i rc)
      (shareDomainIomems (env.mended p) left i rc) := by
  induction left generalizing i rc with
  | zero => exact .ret rc
  | succ left ih =>
    refine (reports_other (hperm i).symm (fun _ => False)).bind (fun h => h.elim) ?_
    by_cases hl : left = 0
    · subst hl
      exact (reports_call hp _).bind (fun hrc => hrc) (.ret _)
    · have hne : CreateCall.memoryMapping i ≠ p := by
        rintro rfl
        have := hlast i rfl (le_refl i) (by omega)
        omega
      refine (reports_other hne (fun _ => False)).bind (fun h => h.elim)
        (ih (fun j hj hi hlt => ?_) _)
      have := hlast j hj (by omega) (by omega)
      omega

theorem reports_bindDomainIrqs (hp : env.rc p < 0) {left i : Nat}
    (hlast : ∀ j, p = .bindIrq j → i ≤ j → j < i + left → j + 1 = i + left) (rc : Int) :
    Reports p (· < 0) (bindDomainIrqs env left i rc)
      (bindDomainIrqs (env.mended p) left i rc) := by
  induction left generalizing i rc with
  | zero => exact .ret rc
  | succ left ih =>
    by_cases hl : left = 0
    · subst hl
      exact (reports_call hp _).bind (fun hrc => hrc) (.ret _)
    · have hne : CreateCall.bindIrq i ≠ p := by
        rintro rfl
        have := hlast i rfl (le_refl i) (by omega)
        omega
      refine (reports_other hne (fun _ => False)).bind (fun h => h.elim)
        (ih (fun j hj hi hlt => ?_) _)
      have := hlast j hj (by omega) (by omega)
      omega

theorem reports_assignDtdevs (hp : env.rc p < 0) (left i : Nat) :
    Reports p (· < 0) (assignDtdevs env left i) (assignDtdevs (env.mended p) left i) := by
  induction left generalizing i with
  | zero => exact .ret 0
  | succ left ih => exact .check (reports_call hp _) (ih _)

/-- The failures that are logged at most: the domain goes without its label, the magic pages stay
mapped, an I/O range or an interrupt that is not the last one is left out. -/
def Logged (cfg : XenDomainCfg) : CreateCall → Prop
  | .flaskContext | .unmapMagic | .iomemPermission _ => True
  | .memoryMapping i => i + 1 ≠ cfg.nrIomems
  | .bindIrq i => i + 1 ≠ cfg.nrIrqs
  | _ => False

instance (cfg : XenDomainCfg) : ∀ c, Decidable (Logged cfg c)
  | .flaskContext | .unmapMagic | .iomemPermission _ => isTrue trivial
  | .memoryMapping i => inferInstanceAs (Decidable (i + 1 ≠ cfg.nrIomems))
  | .bindIrq i => inferInstanceAs (Decidable (i + 1 ≠ cfg.nrIrqs))
  | .createDomain | .allocDomain | .maxVcpus | .addressSize | .maxMem
  | .pagingMempool | .storeEvtchn | .consoleEvtchn | .populateMagic | .mapMagic | .flushMagic
  | .consolePfn | .storePfn | .populateRam | .probe _ _ | .assignDtdev _ | .vcpuContext
  | .mapStore | .bindStore | .paramStore | .mapConsole | .allocConsole | .bindConsole
  | .paramConsole | .domainInfo | .storeAlloc | .unpause => isFalse id

theorem reports_setupDomain {cfg : XenDomainCfg} (hle : env.Plain) (hp : env.rc p < 0)
    (hlog : ¬ Logged cfg p) (hu : ¬ p.OfAttempt true) :
    Reports p (· < 0) (setupDomain env cfg) (setupDomain (env.mended p) cfg) := by
  have hne : p ≠ .unmapMagic := by
    rintro rfl
    exact hlog trivial
  refine .check (reports_call hp _) (.check (reports_call hp _) (.check (reports_call hp _) ?_))
  refine .check (reports_call hp _) (.check (reports_allocateDomainEvtchns hp) ?_)
  refine .check (reports_loadImage hle hp hne hu cfg) (.check ?_ (.check ?_ ?_))
  · refine reports_shareDomainIomems hp (fun j => ?_) (fun j => ?_) 0
    · rintro rfl
      exact hlog trivial
    · rintro rfl _ _
      simpa using not_not.mp hlog
  · refine reports_bindDomainIrqs hp (fun j => ?_) 0
    rintro rfl _ _
    simpa using not_not.mp hlog
  · exact .check (reports_assignDtdevs hp _ _) (reports_call hp _)

def Agrees (x x' : Traced α) : Prop := x'.val = x.val

theorem Agrees.refl (x : Traced α) : Agrees x x := rfl

theorem Agrees.bind {x x' : Traced α} {f f' : α → Traced β} (hx : Agrees x x')
    (hf : ∀ a, Agrees (f a) (f' a)) : Agrees (x >>= f) (x' >>= f') := by
  unfold Agrees
  rw [Traced.val_bind, Traced.val_bind, hx]
  exact hf _

theorem Agrees.ite {q : Prop} [Decidable q] {x x' y y' : Traced α} (hx : Agrees x x')
    (hy : Agrees y y') : Agrees (if q then x else y) (if q then x' else y') := by
  split
  · exact hx
  · exact hy

theorem Agrees.check {x x' y y' : Traced Int} (hx : Agrees x x') (hy : Agrees y y') :
    Agrees (x >>= fun rc => if rc ≠ 0 then pure rc else y)
      (x' >>= fun rc => if rc ≠ 0 then pure rc else y') :=
  hx.bind fun _ => .ite (.refl _) hy

theorem Agrees.skip {x x' : Traced α} {y y' : Traced β} (hy : Agrees y y') :
    Agrees (x >>= fun _ => y) (x' >>= fun _ => y') := hy

section Logged
variable {cfg : XenDomainCfg}

theorem agrees_call (hlog : Logged cfg p) {c : CreateCall} (hc : ¬ Logged cfg c) :
    Agrees (env.call c) ((env.mended p).call c) := by
  rw [CreateEnv.mended_call]
  · exact .refl _
  · rintro rfl
    exact hc hlog

theorem agrees_allocateMagicPages (hlog : Logged cfg p) :
    Agrees (allocateMagicPages env) (allocateMagicPages (env.mended p)) := by
  refine (agrees_call hlog id).bind fun _ => .ite (.refl _) ?_
  refine (agrees_call hlog id).check ((agrees_call hlog id).bind fun _ => .skip (.ite (.refl _) ?_))
  exact (agrees_call hlog id).check (agrees_call hlog id)

theorem not_ofAttempt_of_logged (hlog : Logged cfg p) (uimage : Bool) : ¬ p.OfAttempt uimage := by
  rintro ⟨c, rfl⟩
  exact hlog

theorem agrees_loadModules (hle : env.Plain) (hp : env.rc p < 0) (hlog : Logged cfg p) :
    Agrees (loadModules env cfg) (loadModules (env.mended p) cfg) := by
  have hphys : Agrees (prepareDomainPhysmap env) (prepareDomainPhysmap (env.mended p)) :=
    (agrees_allocateMagicPages hlog).check
      ((agrees_call hlog id).bind fun _ => .ite (.refl _) (.refl _))
  refine hphys.bind fun _ => .ite (.refl _) ?_
  have hu : probeUimage (env.mended p) cfg = probeUimage env cfg :=
    (reports_probeUimage hle hp cfg).same fun h =>
      not_ofAttempt_of_logged hlog true (only_probeUimage cfg p h)
  have hz : probeZimage (env.mended p) false guestRam0Base 0 cfg =
      probeZimage env false guestRam0Base 0 cfg :=
    (reports_probeZimage hle hp false _ _ cfg).same fun h =>
      not_ofAttempt_of_logged hlog false (only_probeZimage _ _ _ cfg p h)
  rw [hu, hz]
  exact .refl _

theorem agrees_assignDtdevs (hlog : Logged cfg p) (left i : Nat) :
    Agrees (assignDtdevs env left i) (assignDtdevs (env.mended p) left i) := by
  induction left generalizing i with
  | zero => exact .refl _
  | succ left ih => exact (agrees_call hlog id).check (ih _)

theorem agrees_shareDomainIomems (hlog : Logged cfg p) :
    Agrees (shareDomainIomems env cfg.nrIomems 0 0)
      (shareDomainIomems (env.mended p) cfg.nrIomems 0 0) := by
  unfold Agrees
  rw [val_shareDomainIomems, val_shareDomainIomems]
  split
  · rfl
  · refine Function.update_of_ne ?_ _ _
    rintro rfl
    exact hlog (by omega)

theorem agrees_bindDomainIrqs (hlog : Logged cfg p) :
    Agrees (bindDomainIrqs env cfg.nrIrqs 0 0) (bindDomainIrqs (env.mended p) cfg.nrIrqs 0 0) := by
  unfold Agrees
  rw [val_bindDomainIrqs, val_bindDomainIrqs]
  split
  · rfl
  · refine Function.update_of_ne ?_ _ _
    rintro rfl
    exact hlog (by omega)

/-- Mending a call that is only logged changes nothing. -/
theorem agrees_setupDomain (hle : env.Plain) (hp : env.rc p < 0) (hlog : Logged cfg p) :
    Agrees (setupDomain env cfg) (setupDomain (env.mended p) cfg) := by
  refine (agrees_call hlog id).check ((agrees_call hlog id).check ?_)
  refine (agrees_call hlog id).check ((agrees_call hlog id).check (Agrees.check ?_ ?_))
  · exact (agrees_call hlog id).bind fun _ => .ite (.refl _)
      ((agrees_call hlog id).bind fun _ => .ite (.refl _) (.refl _))
  refine Agrees.check ?_ ((agrees_shareDomainIomems hlog).check ?_)
  · exact (agrees_loadModules hle hp hlog).bind fun _ => .ite (.refl _) (.refl _)
  · exact (agrees_bindDomainIrqs hlog).check
      ((agrees_assignDtdevs hlog _ _).check (agrees_call hlog id))

end Logged

def CreateCall.givesPort : CreateCall → Bool
  | .storeEvtchn | .consoleEvtchn | .bindStore | .bindConsole => true
  | _ => false

def CreateEnv.Succeeds (env : CreateEnv) (c : CreateCall) : Prop :=
  if c.givesPort then 0 ≤ env.rc c else env.rc c = 0

/-- `get_image_size` gives 0 or the number of an error. -/
def XenDomainCfg.SizeOrError (cfg : XenDomainCfg) : Prop :=
  ∀ size ∈ cfg.getImageSize, size.1 ≤ 0

def Gives (Q : α → Prop) (x : Traced α) : Prop := Q x.val

theorem Gives.bind {P : α → Prop} {Q : β → Prop} {x : Traced α} {f : α → Traced β}
    (hx : Gives P x) (hf : ∀ a, P a → Gives Q (f a)) : Gives Q (x >>= f) := hf _ hx

theorem Gives.ite {Q : α → Prop} {c : Prop} [Decidable c] {x y : Traced α}
    (hx : c → Gives Q x) (hy : ¬ c → Gives Q y) : Gives Q (if c then x else y) := by
  split
  · exact hx ‹_›
  · exact hy ‹_›

theorem Gives.check {x y : Traced Int} (hx : Gives (· ≤ 0) x) (hy : Gives (· ≤ 0) y) :
    Gives (· ≤ 0) (x >>= fun rc => if rc ≠ 0 then pure rc else y) :=
  hx.bind fun _ hrc => .ite (fun _ => hrc) (fun _ => hy)

theorem CreateEnv.Plain.gives (hle : env.Plain) {c : CreateCall} (h : c.givesPort = false) :
    Gives (· ≤ 0) (env.call c) :=
  hle c (by rintro rfl; cases h) (by rintro rfl; cases h) (by rintro rfl; cases h)
    (by rintro rfl; cases h)

theorem gives_probeZimage {cfg : XenDomainCfg} (hle : env.Plain) (hsize : cfg.SizeOrError)
    (uimage : Bool) (baseAddr : UInt64) (offset : Nat) :
    Gives (fun r => r.1 ≤ 0) (probeZimage env uimage baseAddr offset cfg) := by
  have hdtb : Gives (· ≤ 0) (loadDtb env uimage) :=
    (hle.gives rfl).check ((hle.gives rfl).bind fun _ hflush => (hle.gives rfl).bind fun _ hunmap =>
      .ite (fun _ => hflush) (fun _ => hunmap))
  unfold probeZimage
  cases cfg.loadImageBytes with
  | none => exact (by decide : Errno.einval.rc ≤ 0)
  | some load =>
    cases hs : cfg.getImageSize with
    | none => exact (by decide : Errno.einval.rc ≤ 0)
    | some size =>
      refine .ite (fun h => le_of_lt h) (fun _ => .ite (fun _ => hsize size hs) (fun _ => ?_))
      refine (hle.gives rfl).bind fun fdt hfdt => .ite (fun _ => ?_) (fun _ => ?_)
      · exact (by decide : Errno.enomem.rc ≤ 0)
      refine .ite (fun _ => hfdt)
        (fun _ => hdtb.bind fun _ hrc => .ite (fun _ => hrc) (fun _ => ?_))
      refine (hle.gives rfl).bind fun _ hmap => .ite (fun _ => hmap) (fun _ => ?_)
      refine .ite (fun h => le_of_lt h) (fun _ => ?_)
      refine (hle.gives rfl).bind fun _ hflush => (hle.gives rfl).bind fun _ hunmap => ?_
      exact .ite (fun _ => hunmap) (fun _ => .ite (fun _ => hflush) (fun _ => le_refl 0))

theorem gives_loadImage {cfg : XenDomainCfg} (hle : env.Plain) (hsize : cfg.SizeOrError) :
    Gives (· ≤ 0) (loadImage env cfg) := by
  have hmagic : Gives (· ≤ 0) (allocateMagicPages env) := by
    refine (hle.gives rfl).bind fun _ _ => .ite (fun _ => ?_) (fun _ => ?_)
    · exact (by decide : Errno.enomem.rc ≤ 0)
    refine (hle.gives rfl).check ((hle.gives rfl).bind fun _ hflush => ?_)
    refine (hle.gives rfl).bind fun _ _ => .ite (fun _ => hflush) (fun _ => ?_)
    exact (hle.gives rfl).check (hle.gives rfl)
  have hphys : Gives (· ≤ 0) (prepareDomainPhysmap env) := by
    refine hmagic.check ((hle.gives rfl).bind fun _ _ => .ite (fun _ => ?_) (fun _ => le_refl 0))
    exact (by decide : Errno.enomem.rc ≤ 0)
  have hmodules : Gives (fun r => r.1 ≤ 0) (loadModules env cfg) := by
    refine hphys.bind fun _ hrc => .ite (fun _ => hrc) (fun _ => ?_)
    refine Gives.bind (P := fun _ => True) trivial fun uimage _ => .ite (fun _ => ?_) (fun h => ?_)
    · exact gives_probeZimage hle hsize _ _ _
    · exact le_of_eq (not_not.mp h)
  refine hmodules.bind fun _ hrc => .ite (fun _ => hrc) (fun _ => .ite (fun _ => ?_) (fun _ => ?_))
  · exact (by decide : Errno.einval.rc ≤ 0)
  · exact le_refl 0

theorem gives_setupDomain {cfg : XenDomainCfg} (hle : env.Plain) (hsize : cfg.SizeOrError) :
    Gives (· ≤ 0) (setupDomain env cfg) := by
  have hdtdevs (left i : Nat) : Gives (· ≤ 0) (assignDtdevs env left i) := by
    induction left generalizing i with
    | zero => exact le_refl 0
    | succ left ih => exact (hle.gives rfl).check (ih _)
  refine (hle.gives rfl).check ((hle.gives rfl).check ((hle.gives rfl).check ?_))
  refine (hle.gives rfl).check (Gives.check ?_ ((gives_loadImage hle hsize).check ?_))
  · refine Gives.bind (P := fun _ => True) trivial fun _ _ => .ite le_of_lt (fun _ => ?_)
    refine Gives.bind (P := fun _ => True) trivial fun _ _ => .ite le_of_lt (fun _ => le_refl 0)
  refine Gives.check ?_ (Gives.check ?_ ((hdtdevs _ _).check (hle.gives rfl)))
  · unfold Gives
    rw [val_shareDomainIomems]
    split
    · exact le_refl 0
    · exact hle.gives rfl
  · unfold Gives
    rw [val_bindDomainIrqs]
    split
    · exact le_refl 0
    · exact hle.gives rfl

section Fallback
variable {cfg : XenDomainCfg}

/-- The image loaded as zImage, with the checks of `load_modules`. -/
def loadZimage (env : CreateEnv) (cfg : XenDomainCfg) : Traced Int := do
  let modules ← probeZimage env false guestRam0Base 0 cfg
  if modules.1 ≠ 0 then return modules.1
  if modules.2 = 0 then return Errno.einval.rc
  return 0

def CreateCall.ofUimage : CreateCall → Bool
  | .probe uimage _ => uimage
  | _ => false

/-- The calls before the services, but for those before there is a domain. -/
def CreateCall.inSetup : CreateCall → Bool
  | .flaskContext | .createDomain | .allocDomain | .mapStore | .bindStore | .paramStore
  | .mapConsole | .allocConsole | .bindConsole | .paramConsole | .domainInfo | .storeAlloc
  | .unpause => false
  | _ => true

/-- Those of them outside the attempt as uImage are of this kind. -/
def CreateEnv.Others (env : CreateEnv) (P : CreateCall → Prop) : Prop :=
  ∀ {c : CreateCall}, (c.inSetup && !c.ofUimage) = true → Only P (env.call c)

theorem Only.check {P : CreateCall → Prop} {x y : Traced Int} (hx : Only P x) (hy : Only P y) :
    Only P (x >>= fun rc => if rc ≠ 0 then pure rc else y) :=
  hx.bind fun _ => .ite (.ret _) hy

theorem only_loadImage {P : CreateCall → Prop} (h : env.Others P)
    (hu : Only P (probeUimage env cfg)) : Only P (loadImage env cfg) := by
  have hz : Only P (probeZimage env false guestRam0Base 0 cfg) := by
    intro c hc
    obtain ⟨call, rfl⟩ := only_probeZimage false guestRam0Base 0 cfg c hc
    exact h (c := .probe false call) rfl _ List.mem_cons_self
  have hmagic : Only P (allocateMagicPages env) := by
    refine (h rfl).bind fun _ => .ite (.ret _) ((h rfl).check ?_)
    refine (h rfl).bind fun _ => (h rfl).bind fun _ => .ite (.ret _) ((h rfl).check (h rfl))
  have hphys : Only P (prepareDomainPhysmap env) :=
    hmagic.check ((h rfl).bind fun _ => .ite (.ret _) (.ret _))
  have hmodules : Only P (loadModules env cfg) :=
    hphys.bind fun _ => .ite (.ret _) (hu.bind fun _ => .ite hz (.ret _))
  exact hmodules.bind fun _ => .ite (.ret _) (.ite (.ret _) (.ret _))

theorem only_setupDomain {P : CreateCall → Prop} (h : env.Others P)
    (hu : Only P (probeUimage env cfg)) : Only P (setupDomain env cfg) := by
  have hports : Only P (allocateDomainEvtchns env) :=
    (h rfl).bind fun _ => .ite (.ret _) ((h rfl).bind fun _ => .ite (.ret _) (.ret _))
  have hiomems (left i : Nat) (rc : Int) : Only P (shareDomainIomems env left i rc) := by
    induction left generalizing i rc with
    | zero => exact .ret _
    | succ left ih => exact (h rfl).bind fun _ => (h rfl).bind fun _ => ih _ _
  have hirqs (left i : Nat) (rc : Int) : Only P (bindDomainIrqs env left i rc) := by
    induction left generalizing i rc with
    | zero => exact .ret _
    | succ left ih => exact (h rfl).bind fun _ => ih _ _
  have hdtdevs (left i : Nat) : Only P (assignDtdevs env left i) := by
    induction left generalizing i with
    | zero => exact .ret _
    | succ left ih => exact (h rfl).check (ih _)
  refine (h rfl).check ((h rfl).check ((h rfl).check ((h rfl).check (hports.check ?_))))
  refine (only_loadImage h hu).check ((hiomems _ _ _).check ((hirqs _ _ _).check ?_))
  exact (hdtdevs _ _).check (h rfl)

theorem mem_probeUimage_of_setup (hu : p.OfAttempt true) (h : p ∈ (setupDomain env cfg).calls) :
    p ∈ (probeUimage env cfg).calls := by
  by_contra hmem
  refine only_setupDomain (P := (· ≠ p)) (fun hc => .call ?_) (fun c hc => ?_) p h rfl
  · rintro rfl
    obtain ⟨call, rfl⟩ := hu
    cases hc
  · rintro rfl
    exact hmem hc

/-- Every call but `p` succeeds. -/
def CreateEnv.OthersSucceed (env : CreateEnv) (p : CreateCall) : Prop :=
  ∀ c, c ≠ p → env.Succeeds c

theorem CreateEnv.OthersSucceed.zero (h : env.OthersSucceed p) {c : CreateCall} (hc : c ≠ p)
    (hport : c.givesPort = false) : env.rc c = 0 := by
  simpa [CreateEnv.Succeeds, hport] using h c hc

/-- When the attempt as uImage fails the one as zImage decides. -/
theorem val_setupDomain_zimage (hle : env.Plain) (hp : env.rc p < 0) (hothers : env.OthersSucceed p)
    (hu : p.OfAttempt true) (h : p ∈ (setupDomain env cfg).calls) :
    (setupDomain env cfg).val = (loadZimage env cfg).val := by
  have hfail : (probeUimage env cfg).val.1 ≠ 0 :=
    ne_of_lt ((reports_probeUimage hle hp cfg).failed (mem_probeUimage_of_setup hu h))
  obtain ⟨call, rfl⟩ := hu
  have hzero (c : CreateCall) (hc : (c.ofUimage || c.givesPort) = false) :
      (env.call c).val = 0 := by
    rw [Bool.or_eq_false_iff] at hc
    exact hothers.zero (by rintro rfl; cases hc.1) hc.2
  have hports : (allocateDomainEvtchns env).val = 0 := by
    have hs : 0 ≤ env.rc .storeEvtchn := hothers .storeEvtchn nofun
    have hc : 0 ≤ env.rc .consoleEvtchn := hothers .consoleEvtchn nofun
    simp [allocateDomainEvtchns, CreateEnv.call, not_lt.mpr hs, not_lt.mpr hc]
  have hphys : (prepareDomainPhysmap env).val = 0 := by
    simp (disch := decide) [prepareDomainPhysmap, allocateMagicPages, hzero]
  have himage : (loadImage env cfg).val = (loadZimage env cfg).val := by
    simp [loadImage, loadModules, loadZimage, hphys, hfail]
  have hdtdevs (left i : Nat) : (assignDtdevs env left i).val = 0 := by
    induction left generalizing i with
    | zero => rfl
    | succ left ih => simpa [assignDtdevs, hzero (.assignDtdev i) rfl] using ih _
  have hiomems : (shareDomainIomems env cfg.nrIomems 0 0).val = 0 := by
    rw [val_shareDomainIomems]
    split
    · rfl
    · exact hzero (.memoryMapping _) rfl
  have hirqs : (bindDomainIrqs env cfg.nrIrqs 0 0).val = 0 := by
    rw [val_bindDomainIrqs]
    split
    · rfl
    · exact hzero (.bindIrq _) rfl
  unfold setupDomain
  rw [Traced.val_check_zero (hzero _ rfl), Traced.val_check_zero (hzero _ rfl),
    Traced.val_check_zero (hzero _ rfl), Traced.val_check_zero (hzero _ rfl),
    Traced.val_check_zero hports, ← himage]
  by_cases hz : (loadImage env cfg).val = 0
  · rw [Traced.val_check_zero hz, Traced.val_check_zero hiomems, Traced.val_check_zero hirqs,
      Traced.val_check_zero (hdtdevs _ _), hz]
    exact hzero _ rfl
  · rw [Traced.val_bind, if_pos hz, Traced.val_pure]

end Fallback

end Reports

end Xenlib
