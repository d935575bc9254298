import Xenlib.DomMgmt

/-!
The start-up of Dom0 in a dom0less boot, which looks for the domains Xen has booted and attaches
each of them.
-/

set_option autoImplicit false

namespace Xenlib

def esrch : Int := 3

section
variable {Info : Type}

/-- What `xen_domctl_getdomaininfo` returns for an id, and what is in the record afterwards. -/
abbrev DomctlGetdomaininfo (Info : Type) := Int → Info → Int × Info

/-- The loop, which has this many ids left below `CONFIG_DOMU_MAX`. It ends with `i`, `rc` and the
record. -/
def dom0lessNextLoop (getdomaininfo : DomctlGetdomaininfo Info) :
    Nat → Int → Int → Info → Int × Int × Info
  | 0, i, rc, info => (i, rc, info)
  | n + 1, i, _, info =>
    let (rc, info) := getdomaininfo i info
    if rc ≠ 0 ∧ rc ≠ -esrch then (i, rc, info)
    else if rc = 0 then (i, rc, info)
    else dom0lessNextLoop getdomaininfo n (i + 1) rc info

/-- The conversion of an id to the `int` of the loop. -/
def domidInt (domid : UInt32) : Int :=
  if domid.toNat < 2147483648 then domid.toNat else (domid.toNat : Int) - 4294967296

/-- `rc` is not initialized, so that the call finds some content in it. -/
def dom0lessGetNextDomain (getdomaininfo : DomctlGetdomaininfo Info) (domuMax : Nat) (rc : Int)
    (domidStart : UInt32) (info : Info) : Int × Info :=
  let (i, rc, info) := dom0lessNextLoop getdomaininfo (domuMax - domidInt domidStart).toNat
    (domidInt domidStart) rc info
  (if rc ≠ 0 then rc else i, info)

/-- The loop of `dom0less_init` and the calls of `dom0less_init_domain` it has made. `locals` is
what each call of `dom0less_get_next_domain` finds in its `rc`, and `none` that the loop goes on
for longer. -/
def dom0lessInitLoop (getdomaininfo : DomctlGetdomaininfo Info) (initDomain : UInt32 → Info → Int)
    (domuMax : Nat) (locals : Nat → Int) : Nat → Nat → UInt32 → Info → List (UInt32 × Info) →
      Option (Int × List (UInt32 × Info))
  | 0, _, _, _, _ => none
  | fuel + 1, k, domidStart, dominfo, calls =>
    let (rc, dominfo) :=
      dom0lessGetNextDomain getdomaininfo domuMax (locals k) domidStart dominfo
    if rc < 0 then some (rc, calls)
    else
      let domidStart := UInt32.ofNat rc.toNat
      let calls := calls ++ [(domidStart, dominfo)]
      let rc := initDomain domidStart dominfo
      if rc ≠ 0 then some (rc, calls)
      else if rc < domuMax then
        dom0lessInitLoop getdomaininfo initDomain domuMax locals fuel (k + 1) (domidStart + 1)
          dominfo calls
      else some (rc, calls)

def dom0lessInit (getdomaininfo : DomctlGetdomaininfo Info) (initDomain : UInt32 → Info → Int)
    (domuMax : Nat) (locals : Nat → Int) (dominfo : Info) (fuel : Nat) :
    Option (Int × List (UInt32 × Info)) :=
  (dom0lessInitLoop getdomaininfo initDomain domuMax locals fuel 0 1 dominfo []).map
    fun (rc, calls) => (if rc = -esrch then 0 else rc, calls)

structure KnownDomains (getdomaininfo : DomctlGetdomaininfo Info) (exist : Nat → Bool)
    (record : Nat → Info) : Prop where
  member : ∀ (d : Nat) (info : Info), exist d = true → getdomaininfo d info = (0, record d)
  other : ∀ (d : Nat) (info : Info), exist d = false → (getdomaininfo d info).1 = -esrch

/-- The existing ones of `n` ids. -/
def existingFrom (exist : Nat → Bool) (i n : Nat) : List Nat := (List.range' i n).filter exist

theorem existingFrom_succ (exist : Nat → Bool) (i n : Nat) :
    existingFrom exist i (n + 1) =
      if exist i then i :: existingFrom exist (i + 1) n else existingFrom exist (i + 1) n := by
  simp [existingFrom, List.range'_succ, List.filter_cons]

theorem existingFrom_cons {exist : Nat → Bool} {i n d : Nat} {rest : List Nat}
    (h : existingFrom exist i n = d :: rest) :
    i ≤ d ∧ d < i + n ∧ exist d = true ∧ rest = existingFrom exist (d + 1) (i + n - (d + 1)) := by
  induction n generalizing i with
  | zero => simp [existingFrom] at h
  | succ n ih =>
    rw [existingFrom_succ] at h
    by_cases hi : exist i = true
    · rw [if_pos hi] at h
      obtain ⟨rfl, rfl⟩ := List.cons.inj h
      refine ⟨Nat.le_refl _, by omega, hi, ?_⟩
      rw [show i + (n + 1) - (i + 1) = n by omega]
    · rw [if_neg hi] at h
      obtain ⟨hle, hlt, hd, hrest⟩ := ih h
      refine ⟨by omega, by omega, hd, ?_⟩
      rw [hrest, show i + 1 + n = i + (n + 1) by omega]

variable {getdomaininfo : DomctlGetdomaininfo Info} {exist : Nat → Bool} {record : Nat → Info}
  {initDomain : UInt32 → Info → Int} {domuMax : Nat} {locals : Nat → Int}

theorem dom0lessNextLoop_found (h : KnownDomains getdomaininfo exist record) {i n d : Nat}
    {rest : List Nat} (hlist : existingFrom exist i n = d :: rest) (rc : Int) (info : Info) :
    dom0lessNextLoop getdomaininfo n i rc info = ((d : Int), 0, record d) := by
  induction n generalizing i rc info with
  | zero => simp [existingFrom] at hlist
  | succ n ih =>
    rw [existingFrom_succ] at hlist
    cases hi : exist i with
    | true =>
      rw [if_pos hi] at hlist
      obtain ⟨rfl, -⟩ := List.cons.inj hlist
      simp [dom0lessNextLoop, h.member i info hi]
    | false =>
      rw [hi] at hlist
      have hrc := h.other i info hi
      have hnext := ih hlist (-esrch) (getdomaininfo i info).2
      simp [dom0lessNextLoop, hrc, esrch] at hnext ⊢
      exact hnext

theorem dom0lessNextLoop_none (h : KnownDomains getdomaininfo exist record) {i n : Nat}
    (hlist : existingFrom exist i n = []) (rc : Int) (info : Info) :
    ∃ info', dom0lessNextLoop getdomaininfo n i rc info =
      (((i + n : Nat) : Int), if n = 0 then rc else -esrch, info') := by
  induction n generalizing i rc info with
  | zero => exact ⟨info, by simp [dom0lessNextLoop]⟩
  | succ n ih =>
    rw [existingFrom_succ] at hlist
    cases hi : exist i with
    | true =>
      rw [if_pos hi] at hlist
      cases hlist
    | false =>
      rw [hi] at hlist
      have hrc := h.other i info hi
      obtain ⟨info', hnext⟩ := ih hlist (-esrch) (getdomaininfo i info).2
      refine ⟨info', ?_⟩
      have hend : ((i : Int) + 1 + n) = ((i + (n + 1) : Nat) : Int) := by omega
      simp [dom0lessNextLoop, hrc, esrch] at hnext ⊢
      rw [hnext, hend]
      simp

theorem domidInt_ofNat {d : Nat} (hd : d ≤ domuMax) (hmax : domuMax ≤ 32) :
    domidInt (UInt32.ofNat d) = d := by
  have hlt : d < UInt32.size := by
    simp only [UInt32.size]
    omega
  rw [domidInt, UInt32.toNat_ofNat_of_lt' hlt, if_pos (by omega)]

theorem getNextDomain_found (h : KnownDomains getdomaininfo exist record) {start d : Nat}
    {rest : List Nat} (hstart : start ≤ domuMax) (hmax : domuMax ≤ 32)
    (hlist : existingFrom exist start (domuMax - start) = d :: rest) (rc : Int) (info : Info) :
    dom0lessGetNextDomain getdomaininfo domuMax rc (UInt32.ofNat start) info =
      ((d : Int), record d) := by
  have hcount : ((domuMax : Int) - (start : Int)).toNat = domuMax - start := by omega
  simp only [dom0lessGetNextDomain, domidInt_ofNat hstart hmax, hcount,
    dom0lessNextLoop_found h hlist, ne_eq, not_true_eq_false, if_false]

/-- Behind the last id the result is what was in `rc`, or the bound. -/
theorem getNextDomain_none (h : KnownDomains getdomaininfo exist record) {start : Nat}
    (hstart : start ≤ domuMax) (hmax : domuMax ≤ 32)
    (hlist : existingFrom exist start (domuMax - start) = []) (rc : Int) (info : Info) :
    ∃ info', dom0lessGetNextDomain getdomaininfo domuMax rc (UInt32.ofNat start) info =
      (if start < domuMax then -esrch else if rc = 0 then domuMax else rc, info') := by
  have hcount : ((domuMax : Int) - (start : Int)).toNat = domuMax - start := by omega
  obtain ⟨info', hloop⟩ := dom0lessNextLoop_none h hlist rc info
  refine ⟨info', ?_⟩
  simp only [dom0lessGetNextDomain, domidInt_ofNat hstart hmax, hcount, hloop]
  by_cases hlt : start < domuMax
  · rw [if_neg (show ¬ domuMax - start = 0 by omega), if_pos hlt]
    simp [esrch]
  · have hend : start = domuMax := by omega
    by_cases hrc : rc = 0 <;> simp [hend, hrc]

section Rounds
variable (hinit : ∀ d info, initDomain d info = 0) (hpos : 0 < domuMax)

include hinit hpos

theorem dom0lessInitLoop_round {fuel k : Nat} {domidStart : UInt32} {dominfo info : Info} {rc : Int}
    (hnext : dom0lessGetNextDomain getdomaininfo domuMax (locals k) domidStart dominfo = (rc, info))
    (calls : List (UInt32 × Info)) :
    dom0lessInitLoop getdomaininfo initDomain domuMax locals (fuel + 1) k domidStart dominfo calls =
      if rc < 0 then some (rc, calls)
      else dom0lessInitLoop getdomaininfo initDomain domuMax locals fuel (k + 1)
        (UInt32.ofNat rc.toNat + 1) info (calls ++ [(UInt32.ofNat rc.toNat, info)]) := by
  have hlt : (0 : Int) < domuMax := by omega
  rw [dom0lessInitLoop, hnext]
  simp only [hinit, ne_eq, not_true_eq_false, if_false, if_pos hlt]

theorem dom0lessInitLoop_mono {fuel k : Nat} {domidStart : UInt32} {dominfo : Info}
    {calls : List (UInt32 × Info)} {r : Int × List (UInt32 × Info)}
    (h : dom0lessInitLoop getdomaininfo initDomain domuMax locals fuel k domidStart dominfo calls =
      some r) (more : Nat) :
    dom0lessInitLoop getdomaininfo initDomain domuMax locals (fuel + more) k domidStart dominfo
      calls = some r := by
  induction fuel generalizing k domidStart dominfo calls with
  | zero => cases h
  | succ fuel ih =>
    obtain ⟨⟨rc, info⟩, hnext⟩ : ∃ r,
        dom0lessGetNextDomain getdomaininfo domuMax (locals k) domidStart dominfo = r := ⟨_, rfl⟩
    rw [dom0lessInitLoop_round hinit hpos hnext] at h
    rw [Nat.succ_add, dom0lessInitLoop_round hinit hpos hnext]
    by_cases hrc : rc < 0
    · rw [if_pos hrc] at h ⊢
      exact h
    · rw [if_neg hrc] at h ⊢
      exact ih h

theorem dom0lessInitLoop_length {fuel k : Nat} {domidStart : UInt32} {dominfo : Info}
    {calls : List (UInt32 × Info)} {rc : Int} {calls' : List (UInt32 × Info)}
    (h : dom0lessInitLoop getdomaininfo initDomain domuMax locals fuel k domidStart dominfo calls =
      some (rc, calls')) : calls.length ≤ calls'.length := by
  induction fuel generalizing k domidStart dominfo calls with
  | zero => cases h
  | succ fuel ih =>
    obtain ⟨⟨rc, info⟩, hnext⟩ : ∃ r,
        dom0lessGetNextDomain getdomaininfo domuMax (locals k) domidStart dominfo = r := ⟨_, rfl⟩
    rw [dom0lessInitLoop_round hinit hpos hnext] at h
    split at h
    · obtain ⟨-, rfl⟩ := Prod.mk.inj (Option.some.inj h)
      exact Nat.le_refl _
    · have hlen := ih h
      rw [List.length_append, List.length_singleton] at hlen
      omega

end Rounds

/-- The call of `dom0less_init_domain` for an existing domain. -/
def initCall (record : Nat → Info) (d : Nat) : UInt32 × Info := (UInt32.ofNat d, record d)

section Runs
variable (h : KnownDomains getdomaininfo exist record) (hinit : ∀ d info, initDomain d info = 0)
  (hpos : 0 < domuMax) (hmax : domuMax ≤ 32)

include h hinit hpos hmax

theorem dom0lessInitLoop_found {start d : Nat} {rest : List Nat} (hstart : start ≤ domuMax)
    (hlist : existingFrom exist start (domuMax - start) = d :: rest) (fuel k : Nat)
    (dominfo : Info) (calls : List (UInt32 × Info)) :
    dom0lessInitLoop getdomaininfo initDomain domuMax locals (fuel + 1) k (UInt32.ofNat start)
        dominfo calls =
      dom0lessInitLoop getdomaininfo initDomain domuMax locals fuel (k + 1) (UInt32.ofNat (d + 1))
        (record d) (calls ++ [initCall record d]) := by
  have hnext := getNextDomain_found h hstart hmax hlist (locals k) dominfo
  have hneg : ¬ (d : Int) < 0 := by omega
  have hsucc : UInt32.ofNat d + 1 = UInt32.ofNat (d + 1) := (UInt32.ofNat_add d 1).symm
  rw [dom0lessInitLoop_round hinit hpos hnext, if_neg hneg, Int.toNat_natCast, hsucc]
  rfl

theorem dom0lessInitLoop_run {l : List Nat} {start : Nat} (hstart : start ≤ domuMax)
    (hlist : existingFrom exist start (domuMax - start) = l) (k : Nat)
    (dominfo : Info) (calls : List (UInt32 × Info)) :
    ∃ last dominfo', last ≤ domuMax ∧ existingFrom exist last (domuMax - last) = [] ∧
      (last = domuMax ↔ start = domuMax ∨ exist (domuMax - 1) = true) ∧
      ∀ fuel, dom0lessInitLoop getdomaininfo initDomain domuMax locals (l.length + fuel) k
          (UInt32.ofNat start) dominfo calls =
        dom0lessInitLoop getdomaininfo initDomain domuMax locals fuel (k + l.length)
          (UInt32.ofNat last) dominfo' (calls ++ l.map (initCall record)) := by
  induction l generalizing start k dominfo calls with
  | nil =>
    refine ⟨start, dominfo, hstart, hlist, ?_, by simp⟩
    constructor
    · exact Or.inl
    · rintro (hend | hlast)
      · exact hend
      · by_contra hne
        have hmem : domuMax - 1 ∈ existingFrom exist start (domuMax - start) :=
          List.mem_filter.mpr ⟨List.mem_range'_1.mpr (by omega), hlast⟩
        rw [hlist] at hmem
        cases hmem
  | cons d rest ih =>
    obtain ⟨hle, hlt, hd, hrest⟩ := existingFrom_cons hlist
    rw [show start + (domuMax - start) = domuMax by omega] at hlt hrest
    obtain ⟨last, dominfo', hlast, hnil, hiff, hrun⟩ :=
      ih hlt hrest.symm (k + 1) (record d) (calls ++ [initCall record d])
    refine ⟨last, dominfo', hlast, hnil, ?_, fun fuel => ?_⟩
    · rw [hiff]
      constructor
      · rintro (hend | hl)
        · exact Or.inr (by rw [← hend]; exact hd)
        · exact Or.inr hl
      · rintro (hend | hl)
        · omega
        · exact Or.inr hl
    · rw [List.length_cons, show rest.length + 1 + fuel = rest.length + fuel + 1 by omega,
        dom0lessInitLoop_found h hinit hpos hmax hstart hlist, hrun fuel]
      simp [Nat.add_assoc, Nat.add_comm 1]

end Runs

/-- The domains Dom0 is to attach. -/
def bootedDomains (exist : Nat → Bool) (domuMax : Nat) : List Nat :=
  existingFrom exist 1 (domuMax - 1)

/-- `dom0less_init` returns 0 and has called `dom0less_init_domain` once for each booted domain, in
this order, and for no other. -/
def AttachesBooted (getdomaininfo : DomctlGetdomaininfo Info) (initDomain : UInt32 → Info → Int)
    (exist : Nat → Bool) (record : Nat → Info) (domuMax : Nat) (locals : Nat → Int)
    (dominfo : Info) : Prop :=
  ∃ fuel, dom0lessInit getdomaininfo initDomain domuMax locals dominfo fuel =
    some (0, (bootedDomains exist domuMax).map (initCall record))

/-- No domain is left to look for below the bound when the last round begins. -/
def LooksPastBound (exist : Nat → Bool) (domuMax : Nat) : Prop :=
  domuMax = 1 ∨ exist (domuMax - 1) = true

instance (exist : Nat → Bool) (domuMax : Nat) : Decidable (LooksPastBound exist domuMax) :=
  inferInstanceAs (Decidable (_ ∨ _))

/-- The last round finds `-ESRCH` in its variable where it does not look for any domain. -/
theorem AttachesBooted.local_eq (h : KnownDomains getdomaininfo exist record)
    (hinit : ∀ d info, initDomain d info = 0) (hpos : 0 < domuMax) (hmax : domuMax ≤ 32)
    {dominfo : Info} (hpast : LooksPastBound exist domuMax)
    (hp : AttachesBooted getdomaininfo initDomain exist record domuMax locals dominfo) :
    locals (bootedDomains exist domuMax).length = -esrch := by
  obtain ⟨fuel, hfuel⟩ := hp
  obtain ⟨last, dominfo', -, hnil, hiff, hrun⟩ := @dom0lessInitLoop_run Info getdomaininfo exist
    record initDomain domuMax locals h hinit hpos hmax _ 1 hpos rfl 0 dominfo []
  obtain rfl : last = domuMax := hiff.mpr (hpast.imp Eq.symm id)
  obtain ⟨⟨rc, calls⟩, hloop, hr⟩ := Option.map_eq_some_iff.mp hfuel
  obtain ⟨hrc, rfl⟩ := Prod.mk.inj hr
  have hend := dom0lessInitLoop_mono hinit hpos hloop (bootedDomains exist last).length
  rw [Nat.add_comm fuel] at hend
  replace hend := (hrun fuel).symm.trans hend
  cases fuel with
  | zero => cases hend
  | succ fuel =>
    obtain ⟨info', hnext⟩ := getNextDomain_none h (Nat.le_refl last) hmax hnil
      (locals (bootedDomains exist last).length) dominfo'
    rw [if_neg (Nat.lt_irrefl _)] at hnext
    generalize hresult : (if locals (bootedDomains exist last).length = 0 then (last : Int)
      else locals (bootedDomains exist last).length) = result at hnext
    rw [Nat.zero_add, ← bootedDomains, dom0lessInitLoop_round hinit hpos hnext] at hend
    generalize locals (bootedDomains exist last).length = content at hresult ⊢
    by_cases hneg : result < 0
    · -- a negative content is the result of `dom0less_init`
      rw [if_pos hneg] at hend
      obtain ⟨rfl, -⟩ := Prod.mk.inj (Option.some.inj hend)
      by_cases hzero : content = 0
      · rw [if_pos hzero] at hresult
        omega
      · rw [if_neg hzero] at hresult
        rw [hresult]
        by_contra hne
        rw [if_neg hne] at hrc
        omega
    · -- any other content is taken for one more domain
      rw [if_neg hneg] at hend
      have hlen := dom0lessInitLoop_length hinit hpos hend
      simp only [bootedDomains, List.nil_append, List.length_append, List.length_map,
        List.length_singleton] at hlen
      omega

/-- The booted domains are attached exactly where the last round of the loop still has an id to ask
for, or finds `-ESRCH` in the variable that it then returns without having set it. -/
theorem dom0lessInit_attaches_iff (getdomaininfo : DomctlGetdomaininfo Info)
    (initDomain : UInt32 → Info → Int) (exist : Nat → Bool) (record : Nat → Info) (domuMax : Nat)
    (locals : Nat → Int) (dominfo : Info) (h : KnownDomains getdomaininfo exist record)
    (hinit : ∀ d info, initDomain d info = 0) (hpos : 1 ≤ domuMax) (hmax : domuMax ≤ 32) :
    AttachesBooted getdomaininfo initDomain exist record domuMax locals dominfo ↔
      ¬ LooksPastBound exist domuMax ∨
        locals (bootedDomains exist domuMax).length = -esrch := by
  constructor
  · intro hp
    by_cases hpast : LooksPastBound exist domuMax
    · exact Or.inr (hp.local_eq h hinit hpos hmax hpast)
    · exact Or.inl hpast
  · intro hcond
    obtain ⟨last, dominfo', hlast, hnil, hiff, hrun⟩ := @dom0lessInitLoop_run Info getdomaininfo
      exist record initDomain domuMax locals h hinit hpos hmax _ 1 hpos rfl 0 dominfo []
    obtain ⟨info', hnext⟩ := getNextDomain_none h hlast hmax hnil
      (locals (bootedDomains exist domuMax).length) dominfo'
    have hrc : (if last < domuMax then -esrch
        else if locals (bootedDomains exist domuMax).length = 0 then (domuMax : Int)
        else locals (bootedDomains exist domuMax).length) = -esrch := by
      rcases hcond with hpast | hlocal
      · have hne : last ≠ domuMax := fun he => hpast ((hiff.mp he).imp Eq.symm id)
        exact if_pos (by omega)
      · simp [hlocal, esrch]
    rw [hrc] at hnext
    refine ⟨(bootedDomains exist domuMax).length + 1, ?_⟩
    have hloop := hrun 1
    rw [Nat.zero_add, ← bootedDomains, dom0lessInitLoop_round hinit hpos hnext,
      if_pos (by decide)] at hloop
    rw [dom0lessInit, show (1 : UInt32) = UInt32.ofNat 1 from rfl, hloop]
    simp

end

def knowsDomains (ids : List Nat) : DomctlGetdomaininfo Unit :=
  fun d info => (if d.toNat ∈ ids then 0 else -esrch, info)

theorem knowsDomains_known (ids : List Nat) :
    KnownDomains (knowsDomains ids) (fun d => decide (d ∈ ids)) fun _ => () := by
  constructor
  · intro d info hd
    simp_all [knowsDomains]
  · intro d info hd
    simp_all [knowsDomains]

theorem dom0lessInit_attaches_two :
    AttachesBooted (knowsDomains [1, 2]) (fun _ _ => 0) (fun d => decide (d ∈ [1, 2]))
      (fun _ => ()) 4 (fun _ => 0) () :=
  (dom0lessInit_attaches_iff _ _ _ _ 4 _ _ (knowsDomains_known [1, 2]) (fun _ _ => rfl)
    (by decide) (by decide)).mpr (Or.inl (by decide))

/-- With the last id in use `dom0less_init_domain` is called for the id behind it. -/
theorem last_domain_overrun :
    ¬ ∀ (Info : Type) (getdomaininfo : DomctlGetdomaininfo Info)
        (initDomain : UInt32 → Info → Int) (exist : Nat → Bool) (record : Nat → Info)
        (domuMax : Nat) (locals : Nat → Int) (dominfo : Info),
        KnownDomains getdomaininfo exist record → (∀ d info, initDomain d info = 0) →
        1 ≤ domuMax → domuMax ≤ 32 →
        AttachesBooted getdomaininfo initDomain exist record domuMax locals dominfo := by
  intro h
  have hp := h Unit (knowsDomains [3]) (fun _ _ => 0) (fun d => decide (d ∈ [3])) (fun _ => ()) 4
    (fun _ => 0) () (knowsDomains_known [3]) (fun _ _ => rfl) (by decide) (by decide)
  have hlocal := hp.local_eq (knowsDomains_known [3]) (fun _ _ => rfl) (by decide) (by decide)
    (Or.inr (by decide))
  exact absurd hlocal (by decide)

end Xenlib
