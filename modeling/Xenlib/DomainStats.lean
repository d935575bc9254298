import Xenlib.GuestRam
import Xenlib.LocalStrings

/-!
The statistics of the domains. The entries are filled one by one, the memory limit after a look at
the first info of the list.
-/

set_option autoImplicit false

namespace Xenlib

open Wp
open GuestRam (xenPageSize)

/-- The fields of `struct xen_domctl_getdomaininfo` that are read. -/
structure DomctlDomaininfo where
  domain : UInt16
  flags : UInt32
  totPages : UInt64
  maxPages : UInt64
  cpuTime : UInt64
  maxVcpuId : UInt32
  ssidref : UInt32
  deriving DecidableEq, Repr

structure XenstatDomain where
  id : UInt16
  name : Bytes
  state : UInt32
  cpuNs : UInt64
  numVcpus : UInt32
  curMem : UInt64
  maxMem : UInt64
  ssid : UInt32
  deriving DecidableEq, Repr

/-- `sizeof("/local/domain/32768/name")`. -/
def namePathSize : Nat := 25

def xenstatGetDomainName (domainId : UInt16) (name : Bytes) (len : Nat) :
    SrvM (Option Errno × Bytes) :=
  xssReadInto ((domainNamePath domainId).take (namePathSize - 1)) name len

def noLimit : UInt64 := 0xffffffffffffffff

/-- The entry after a round of the loop. `infosMaxPages` is `infos->max_pages`. -/
def fillDomain (infosMaxPages : UInt64) (info : DomctlDomaininfo) (name : Bytes) :
    XenstatDomain where
  id := info.domain
  name := name
  state := info.flags
  cpuNs := info.cpuTime
  numVcpus := info.maxVcpuId + 1
  curMem := info.totPages * UInt64.ofNat xenPageSize
  maxMem := if infosMaxPages = noLimit then noLimit else info.maxPages * UInt64.ofNat xenPageSize
  ssid := info.ssidref

def fillDomains (infosMaxPages : UInt64) :
    List DomctlDomaininfo → List XenstatDomain → SrvM (List XenstatDomain)
  | [], domains => pure domains
  | _ :: _, [] => throw .outOfBounds
  | info :: infos, domain :: domains => do
    let (rc, name) ← xenstatGetDomainName info.domain domain.name containerNameSize
    let name := if rc.isSome then name.set 0 0 else name
    let rest ← fillDomains infosMaxPages infos domains
    pure (fillDomain infosMaxPages info name :: rest)

/-- The hypercall returns an error, or as many infos as it has filled. -/
abbrev SysctlGetdomaininfo := UInt16 → Nat → Except Int (List DomctlDomaininfo)

def xstatGetdominfo (sysctl : SysctlGetdomaininfo) (domains : Option (List XenstatDomain))
    (first num : UInt16) : SrvM (Int × Option (List XenstatDomain)) := do
  match domains with
  | none => pure (Errno.einval.rc, none)
  | some domains =>
    let s ← get
    let num := min num.toNat (s.domuMax + 1)
    if !(← alloc kMalloc) then pure (Errno.enomem.rc, some domains)
    else match sysctl first num with
      | .error ret => pure (ret, some domains)
      | .ok [] => pure (0, some domains)
      | .ok (info :: infos) =>
        let domains ← fillDomains info.maxPages (info :: infos) domains
        pure ((infos.length + 1 : Nat), some domains)

section Names
variable {s : Shared} {d : UInt16} {name : Bytes}

theorem domainNamePath_length (d : UInt16) : (domainNamePath d).length ≤ namePathSize - 1 := by
  have hlt : d.toNat < 10 ^ 5 := by
    have := d.toNat_lt
    omega
  have hdec : (decimal d.toNat).length ≤ 5 := decimal_length_le (by decide) hlt
  have hlocal : (cstr "local").length = 5 := by decide
  have hdomain : (cstr "domain").length = 6 := by decide
  have hname : (cstr "name").length = 4 := by decide
  rw [domainNamePath, renderPath, if_neg (List.cons_ne_nil _ _)]
  simp only [joined_cons, joined_nil, List.length_cons, List.length_append, List.length_nil,
    hlocal, hdomain, hname, namePathSize]
  omega

theorem domainNamePath_take (d : UInt16) :
    (domainNamePath d).take (namePathSize - 1) = domainNamePath d :=
  List.take_of_length_le (domainNamePath_length d)

theorem domainNamePath_not_root (d : UInt16) : xenstoreIsRootPath (domainNamePath d) = false := by
  have hlong : (domainNamePath d).length ≠ 1 := by
    rw [domainNamePath, renderPath, if_neg (List.cons_ne_nil _ _)]
    simp
  simp [xenstoreIsRootPath, hlong]

theorem wp_keyToEntryCheckPerm_one {root : XsEntry} {key : CString} {perms : XsPerm}
    {allocs : List Bool} {Q : Option EntryRef → List Bool → Prop} {E : Fault → Prop}
    (hlen : key.length ≤ xenstoreAbsPathMax) (hroot : xenstoreIsRootPath key = false)
    (h : Q (if allocs.headD true then foundEntry root key else none) allocs.tail) :
    wp (keyToEntryCheckPerm root key 0 perms) Q E allocs := by
  have hkey : keyToEntry root key allocs =
      .ok (if allocs.headD true then foundEntry root key else none, allocs.tail) := by
    have hshort : ¬ key.length > xenstoreAbsPathMax := by omega
    unfold keyToEntry foundEntry
    simp only [hshort, hroot, if_false, Bool.false_eq_true]
    cases allocs with
    | nil => rfl
    | cons b rest => cases b <;> rfl
  unfold keyToEntryCheckPerm
  rw [wp_bind, wp, hkey]
  generalize (if allocs.headD true then foundEntry root key else none) = found at h ⊢
  cases found with
  | none => exact h
  | some e => exact h

def storedDomainName (root : XsEntry) (d : UInt16) : CString :=
  match foundEntry root (domainNamePath d) with
  | some e => entryValue e.entry
  | none => []

def nameRead (root : XsEntry) (granted : Bool) (d : UInt16) : CString :=
  if granted then (storedDomainName root d).take containerNameSize else []

theorem strHead_strncpy {buf : Bytes} {v : CString} :
    strHead (strncpy buf v buf.length) = v.take buf.length := by
  by_cases hlt : v.length < buf.length
  · obtain ⟨tail, htail⟩ := strncpy_short hlt
    rw [htail, strHead_strBytes, List.take_of_length_le (by omega)]
  · rw [strncpy_full (by omega), strHead_textBytes]

theorem strHead_readInto (entry : XsEntry) {buf : Bytes} :
    strHead (readInto entry buf buf.length) = (entryValue entry).take buf.length := by
  unfold readInto entryValue
  cases entry.label.value with
  | none =>
    simp only [Option.getD_none, List.take_nil, memcpy_start]
    rfl
  | some v => exact strHead_strncpy

theorem wp_xenstatGetDomainName (hbuf : name.length = containerNameSize)
    {Q : Option Errno × Bytes → Shared → Prop} {E : Fault → Prop}
    (h : ∀ rc name', strHead (if rc.isSome then name'.set 0 0 else name') =
      nameRead s.root (s.allocs.headD true) d → Q (rc, name') { s with allocs := s.allocs.tail }) :
    wp (xenstatGetDomainName d name containerNameSize) Q E s := by
  have hlen : (domainNamePath d).length ≤ xenstoreAbsPathMax :=
    (domainNamePath_length d).trans (by decide)
  unfold xenstatGetDomainName xssReadInto
  rw [domainNamePath_take]
  simp only [wp_bind, wp_get, wp_alloc]
  refine wp_keyToEntryCheckPerm_one hlen (domainNamePath_not_root d) ?_
  unfold nameRead storedDomainName at h
  cases hfound : (if s.allocs.headD true then foundEntry s.root (domainNamePath d) else none) with
  | none =>
    refine h (some .enoent) name ?_
    have hnil : strHead (name.set 0 0) = [] := by
      cases name with
      | nil => rfl
      | cons b rest => rfl
    show strHead (name.set 0 0) = _
    rw [hnil]
    split
    · rename_i hg
      rw [if_pos hg] at hfound
      rw [hfound, List.take_nil]
    · rfl
  | some e =>
    split at hfound
    · rename_i hg
      have hread : strHead (readInto e.entry name containerNameSize) =
          (entryValue e.entry).take containerNameSize := by
        rw [← hbuf]
        exact strHead_readInto e.entry
      rw [hg, if_pos rfl, hfound] at h
      unfold readInto at hread
      cases hv : e.entry.label.value with
      | none =>
        rw [hv] at hread
        simp only [hv, wp_pure]
        exact h none _ hread
      | some v =>
        rw [hv] at hread
        simp only [hv, wp_pure]
        exact h none _ hread
    · cases hfound

end Names

/-- What an entry says. -/
structure DomainEntry where
  id : UInt16
  name : CString
  state : UInt32
  cpuNs : UInt64
  numVcpus : UInt32
  curMem : UInt64
  maxMem : Nat
  ssid : UInt32
  deriving DecidableEq

def XenstatDomain.entry (domain : XenstatDomain) : DomainEntry where
  id := domain.id
  name := strHead domain.name
  state := domain.state
  cpuNs := domain.cpuNs
  numVcpus := domain.numVcpus
  curMem := domain.curMem
  maxMem := domain.maxMem.toNat
  ssid := domain.ssid

def entryOf (info : DomctlDomaininfo) (name : CString) : DomainEntry where
  id := info.domain
  name := name
  state := info.flags
  cpuNs := info.cpuTime
  numVcpus := info.maxVcpuId + 1
  curMem := info.totPages * UInt64.ofNat xenPageSize
  maxMem := if info.maxPages = noLimit then noLimit.toNat else info.maxPages.toNat * xenPageSize
  ssid := info.ssidref

theorem maxMem_iff (infosMaxPages maxPages : UInt64) :
    (if infosMaxPages = noLimit then noLimit else maxPages * UInt64.ofNat xenPageSize).toNat =
        (if maxPages = noLimit then noLimit.toNat else maxPages.toNat * xenPageSize) ↔
      (infosMaxPages = noLimit ↔ maxPages = noLimit) ∧
        (maxPages ≠ noLimit → maxPages.toNat * xenPageSize < 2 ^ 64) := by
  have hpage : xenPageSize = 4096 := rfl
  have hsize : (UInt64.ofNat xenPageSize).toNat = xenPageSize := by decide
  have hnone : noLimit.toNat = 2 ^ 64 - 1 := by decide
  have hmul : (maxPages * UInt64.ofNat xenPageSize).toNat =
      maxPages.toNat * xenPageSize % 2 ^ 64 := by
    rw [UInt64.toNat_mul, hsize]
  by_cases hfirst : infosMaxPages = noLimit <;> by_cases hown : maxPages = noLimit
  · simp [hfirst, hown]
  · have hodd : 2 ^ 64 - 1 ≠ maxPages.toNat * 4096 := by omega
    simp [hfirst, hown, hnone, hpage]
    exact hodd
  · rw [if_neg hfirst, if_pos hown, hmul, hown, hnone]
    simp [hfirst, hpage]
  · have hwrap : maxPages.toNat * 4096 % 2 ^ 64 = maxPages.toNat * 4096 ↔
        maxPages.toNat * 4096 < 2 ^ 64 := by omega
    rw [if_neg hfirst, if_neg hown, hmul, hpage, hwrap]
    simp [hfirst, hown]

theorem fillDomain_entry_iff {infosMaxPages : UInt64} {info : DomctlDomaininfo} {name : Bytes}
    {text : CString} : (fillDomain infosMaxPages info name).entry = entryOf info text ↔
      ((infosMaxPages = noLimit ↔ info.maxPages = noLimit) ∧
        (info.maxPages ≠ noLimit → info.maxPages.toNat * xenPageSize < 2 ^ 64)) ∧
      strHead name = text := by
  rw [← maxMem_iff]
  simp only [fillDomain, XenstatDomain.entry, entryOf, DomainEntry.mk.injEq, true_and, and_true]
  exact And.comm

/-- What the loop leaves: the entries of the infos, and behind them the old ones. -/
structure Filled (infosMaxPages : UInt64) (infos : List DomctlDomaininfo)
    (domains : List XenstatDomain) (s : Shared) (filled : List XenstatDomain) : Prop where
  length : filled.length = domains.length
  behind : filled.drop infos.length = domains.drop infos.length
  entry : ∀ (i : Nat) (info : DomctlDomaininfo), infos[i]? = some info → ∃ name : Bytes,
    filled[i]? = some (fillDomain infosMaxPages info name) ∧
    strHead name = nameRead s.root (s.allocs[i]?.getD true) info.domain

theorem wp_fillDomains {infosMaxPages : UInt64} {infos : List DomctlDomaininfo}
    {domains : List XenstatDomain} {s : Shared} {E : Fault → Prop}
    (hroom : infos.length ≤ domains.length)
    (hbuf : ∀ domain ∈ domains, domain.name.length = containerNameSize) :
    wp (fillDomains infosMaxPages infos domains)
      (fun filled _ => Filled infosMaxPages infos domains s filled) E s := by
  induction infos generalizing domains s with
  | nil =>
    simp only [fillDomains, wp_pure]
    exact ⟨rfl, rfl, by simp⟩
  | cons info infos ih =>
    cases domains with
    | nil => exact absurd hroom (Nat.not_succ_le_zero _)
    | cons domain domains =>
      obtain ⟨hname, hrest⟩ := List.forall_mem_cons.mp hbuf
      simp only [fillDomains, wp_bind]
      refine wp_xenstatGetDomainName hname fun rc name' hread => ?_
      refine wp_conseq (ih (Nat.le_of_succ_le_succ hroom) hrest) fun rest _ hfilled => ?_
      simp only [wp_pure]
      refine ⟨by simp [hfilled.length], by simpa using hfilled.behind, fun i => ?_⟩
      cases i with
      | zero =>
        rintro _ ⟨⟩
        refine ⟨_, rfl, ?_⟩
        rw [hread]
        cases s.allocs <;> rfl
      | succ i =>
        intro info' hi
        obtain ⟨name, hentry, hstr⟩ := hfilled.entry i info' hi
        refine ⟨name, hentry, ?_⟩
        rw [hstr]
        cases s.allocs <;> rfl

section Stats
variable (sysctl : SysctlGetdomaininfo) (domains : List XenstatDomain) (first num : UInt16)
  (infos : List DomctlDomaininfo) (s : Shared)

/-- Each info gets the entry of its domain, and the entries behind them stay. -/
def ByElement : Prop :=
  ∃ written s', xstatGetdominfo sysctl (some domains) first num s =
      .ok (((infos.length : Int), some (written ++ domains.drop infos.length)), s') ∧
    written.map XenstatDomain.entry =
      infos.map fun info : DomctlDomaininfo =>
        entryOf info ((storedDomainName s.root info.domain).take containerNameSize)

/-- All of the domains have a limit, or none has. -/
def LimitsAlike : Prop :=
  (∀ info ∈ infos, info.maxPages = noLimit) ∨ ∀ info ∈ infos, info.maxPages ≠ noLimit

def LimitsFit : Prop :=
  ∀ info ∈ infos, info.maxPages ≠ noLimit → info.maxPages.toNat * xenPageSize < 2 ^ 64

instance : Decidable (LimitsFit infos) :=
  inferInstanceAs (Decidable (∀ info ∈ infos, _))

/-- There is memory for reading each name, behind that for the infos. -/
def NamesGranted : Prop :=
  ∀ (i : Nat) (info : DomctlDomaininfo), infos[i]? = some info →
    s.allocs.tail[i]?.getD true = true ∨ storedDomainName s.root info.domain = []

variable {sysctl domains first num infos s}

theorem limitsAlike_cons {info : DomctlDomaininfo} {rest : List DomctlDomaininfo} :
    LimitsAlike (info :: rest) ↔
      ∀ i ∈ info :: rest, (info.maxPages = noLimit ↔ i.maxPages = noLimit) := by
  constructor
  · rintro (hall | hall) i hi
    · simp [hall i hi, hall info List.mem_cons_self]
    · simp [hall i hi, hall info List.mem_cons_self]
  · intro h
    by_cases hfirst : info.maxPages = noLimit
    · exact Or.inl fun i hi => (h i hi).mp hfirst
    · exact Or.inr fun i hi hno => hfirst ((h i hi).mpr hno)

theorem nameRead_eq_iff (root : XsEntry) (granted : Bool) (d : UInt16) :
    nameRead root granted d = (storedDomainName root d).take containerNameSize ↔
      granted = true ∨ storedDomainName root d = [] := by
  unfold nameRead
  cases granted with
  | true => simp
  | false =>
    rw [if_neg Bool.false_ne_true, eq_comm, List.take_eq_nil_iff]
    simp [containerNameSize]

theorem xstatGetdominfo_filled (hmem : s.allocs.headD true = true)
    (hret : sysctl first (min num.toNat (s.domuMax + 1)) = .ok infos)
    (hroom : infos.length ≤ domains.length)
    (hbuf : ∀ domain ∈ domains, domain.name.length = containerNameSize) :
    ∃ (infosMaxPages : UInt64) (filled : List XenstatDomain) (s' : Shared),
      (∀ info rest, infos = info :: rest → infosMaxPages = info.maxPages) ∧
      Filled infosMaxPages infos domains { s with allocs := s.allocs.tail } filled ∧
      xstatGetdominfo sysctl (some domains) first num s =
        .ok (((infos.length : Int), some filled), s') := by
  have hmalloc : kMalloc s.allocs = .ok (true, s.allocs.tail) := by
    cases hs : s.allocs with
    | nil => rfl
    | cons b rest =>
      rw [hs] at hmem
      obtain rfl : b = true := hmem
      rfl
  cases infos with
  | nil =>
    refine ⟨0, domains, { s with allocs := s.allocs.tail }, fun _ _ h => (by cases h),
      ⟨rfl, rfl, by simp⟩, Wp.bind_ok_iff.mpr ⟨s, s, rfl, Wp.bind_ok_iff.mpr
        ⟨true, { s with allocs := s.allocs.tail }, ?_, ?_⟩⟩⟩
    · simp only [alloc, hmalloc]
    · simp [hret]
      rfl
  | cons info rest =>
    obtain ⟨filled, s', hrun, hfilled⟩ := wp_total (@wp_fillDomains info.maxPages (info :: rest)
      domains { s with allocs := s.allocs.tail } (fun _ => False) hroom hbuf)
    refine ⟨info.maxPages, filled, s', fun _ _ h => ?_, hfilled, Wp.bind_ok_iff.mpr ⟨s, s, rfl,
      Wp.bind_ok_iff.mpr ⟨true, { s with allocs := s.allocs.tail }, ?_, ?_⟩⟩⟩
    · obtain ⟨rfl, -⟩ := List.cons.inj h
      rfl
    · simp only [alloc, hmalloc]
    · simp only [Bool.not_true, Bool.false_eq_true, if_false, hret]
      exact Wp.bind_ok_iff.mpr ⟨filled, s', hrun, rfl⟩

def EntryAlone (infosMaxPages : UInt64) (allocs : List Bool) (root : XsEntry) (i : Nat)
    (info : DomctlDomaininfo) : Prop :=
  ((infosMaxPages = noLimit ↔ info.maxPages = noLimit) ∧
    (info.maxPages ≠ noLimit → info.maxPages.toNat * xenPageSize < 2 ^ 64)) ∧
  (allocs[i]?.getD true = true ∨ storedDomainName root info.domain = [])

theorem Filled.entry_iff {infosMaxPages : UInt64} {filled : List XenstatDomain}
    (h : Filled infosMaxPages infos domains s filled) {i : Nat} {info : DomctlDomaininfo}
    (hi : infos[i]? = some info) :
    filled[i]?.map XenstatDomain.entry =
        some (entryOf info ((storedDomainName s.root info.domain).take containerNameSize)) ↔
      EntryAlone infosMaxPages s.allocs s.root i info := by
  obtain ⟨name, hentry, hname⟩ := h.entry i info hi
  rw [hentry, Option.map_some, Option.some.injEq, fillDomain_entry_iff, hname, nameRead_eq_iff]
  rfl

theorem Filled.byElement_iff {infosMaxPages : UInt64} {filled : List XenstatDomain} {s' : Shared}
    (hfilled : Filled infosMaxPages infos domains { s with allocs := s.allocs.tail } filled)
    (hrun : xstatGetdominfo sysctl (some domains) first num s =
      .ok (((infos.length : Int), some filled), s')) :
    ByElement sysctl domains first num infos s ↔
      ∀ (i : Nat) (info : DomctlDomaininfo), infos[i]? = some info →
        EntryAlone infosMaxPages s.allocs.tail s.root i info := by
  constructor
  · rintro ⟨written, s₁, hrun₁, hmap⟩ i info hi
    have hsplit : written ++ domains.drop infos.length = filled := by
      rw [hrun] at hrun₁
      cases hrun₁
      rfl
    have hlen : written.length = infos.length := by
      have := congrArg List.length hmap
      rwa [List.length_map, List.length_map] at this
    have hat : filled[i]? = written[i]? := by
      rw [← hsplit]
      refine List.getElem?_append_left ?_
      rw [hlen]
      exact (List.getElem?_eq_some_iff.mp hi).1
    have hentry := congrArg (fun l => l[i]?) hmap
    simp only [List.getElem?_map, hi, ← hat] at hentry
    exact (hfilled.entry_iff hi).mp hentry
  · intro h
    refine ⟨filled.take infos.length, s', ?_, List.ext_getElem? fun i => ?_⟩
    · rw [hrun, ← hfilled.behind, List.take_append_drop]
    · rw [List.getElem?_map, List.getElem?_map, List.getElem?_take]
      cases hi : infos[i]? with
      | none =>
        have hge := List.getElem?_eq_none_iff.mp hi
        rw [if_neg (by omega)]
        rfl
      | some info =>
        rw [if_pos (List.getElem?_eq_some_iff.mp hi).1]
        exact (hfilled.entry_iff hi).mpr (h i info hi)

/-- The statistics are computed element by element exactly where the domains all have a limit or
all have none, the limits are counted in 64 bits and each stored name is read. -/
theorem xstatGetdominfo_byElement_iff (sysctl : SysctlGetdomaininfo) (domains : List XenstatDomain)
    (first num : UInt16) (infos : List DomctlDomaininfo) (s : Shared)
    (hmem : s.allocs.headD true = true)
    (hret : sysctl first (min num.toNat (s.domuMax + 1)) = .ok infos)
    (hnum : infos.length ≤ num.toNat) (hroom : num.toNat ≤ domains.length)
    (hbuf : ∀ domain ∈ domains, domain.name.length = containerNameSize) :
    ByElement sysctl domains first num infos s ↔
      LimitsAlike infos ∧ LimitsFit infos ∧ NamesGranted infos s := by
  obtain ⟨infosMaxPages, filled, s', hfirst, hfilled, hrun⟩ :=
    xstatGetdominfo_filled hmem hret (hnum.trans hroom) hbuf
  rw [hfilled.byElement_iff hrun]
  cases infos with
  | nil => simp [LimitsAlike, LimitsFit, NamesGranted]
  | cons info rest =>
    rw [limitsAlike_cons, ← hfirst info rest rfl]
    constructor
    · intro h
      refine ⟨fun i hi => ?_, fun i hi => ?_, fun k i hk => (h k i hk).2⟩
      · obtain ⟨k, hk⟩ := List.mem_iff_getElem?.mp hi
        exact (h k i hk).1.1
      · obtain ⟨k, hk⟩ := List.mem_iff_getElem?.mp hi
        exact (h k i hk).1.2
    · rintro ⟨halike, hfit, hnames⟩ k i hk
      have hi := List.mem_iff_getElem?.mpr ⟨k, hk⟩
      exact ⟨⟨halike i hi, hfit i hi⟩, hnames k i hk⟩

/-- Where two calls compute their statistics element by element, the entries of the same info agree
when the stored names do, whatever the other infos are and wherever it stands among them. -/
theorem ByElement.entry_eq {sysctl' : SysctlGetdomaininfo} {domains' : List XenstatDomain}
    {first' num' : UInt16} {infos' : List DomctlDomaininfo} {s' : Shared}
    (h : ByElement sysctl domains first num infos s)
    (h' : ByElement sysctl' domains' first' num' infos' s') :
    ∃ written written' t t',
      xstatGetdominfo sysctl (some domains) first num s =
        .ok (((infos.length : Int), some (written ++ domains.drop infos.length)), t) ∧
      xstatGetdominfo sysctl' (some domains') first' num' s' =
        .ok (((infos'.length : Int), some (written' ++ domains'.drop infos'.length)), t') ∧
      ∀ (i j : Nat) (info : DomctlDomaininfo), infos[i]? = some info → infos'[j]? = some info →
        storedDomainName s.root info.domain = storedDomainName s'.root info.domain →
        written[i]?.map XenstatDomain.entry = written'[j]?.map XenstatDomain.entry := by
  obtain ⟨written, t, hrun, hmap⟩ := h
  obtain ⟨written', t', hrun', hmap'⟩ := h'
  refine ⟨written, written', t, t', hrun, hrun', fun i j info hi hj hname => ?_⟩
  rw [← List.getElem?_map, ← List.getElem?_map, hmap, hmap', List.getElem?_map, List.getElem?_map,
    hi, hj, Option.map_some, Option.map_some, hname]

end Stats

def limitedInfo (domain : UInt16) (maxPages : UInt64) : DomctlDomaininfo :=
  ⟨domain, 0, 16, maxPages, 0, 0, 0⟩

def emptyDomain : XenstatDomain := ⟨0, List.replicate containerNameSize 0, 0, 0, 0, 0, 0, 0⟩

theorem xstatGetdominfo_two_limits :
    ByElement (fun _ _ => .ok [limitedInfo 0 256, limitedInfo 1 512]) [emptyDomain, emptyDomain]
      0 2 [limitedInfo 0 256, limitedInfo 1 512] (Shared.boot 4) :=
  (xstatGetdominfo_byElement_iff _ [emptyDomain, emptyDomain] 0 2
    [limitedInfo 0 256, limitedInfo 1 512] (Shared.boot 4) rfl rfl (by decide) (by decide)
    (by decide)).mpr
    ⟨Or.inr (by decide), by decide, fun _ _ _ => Or.inl rfl⟩

/-- Behind a domain without a limit, one with a limit has none. -/
theorem limit_of_first_info :
    ¬ ∀ (sysctl : SysctlGetdomaininfo) (domains : List XenstatDomain) (first num : UInt16)
        (infos : List DomctlDomaininfo) (s : Shared), s.allocs.headD true = true →
        sysctl first (min num.toNat (s.domuMax + 1)) = .ok infos → infos.length ≤ num.toNat →
        num.toNat ≤ domains.length →
        (∀ domain ∈ domains, domain.name.length = containerNameSize) →
        ByElement sysctl domains first num infos s := by
  intro h
  have hp := h (fun _ _ => .ok [limitedInfo 0 noLimit, limitedInfo 1 256])
    [emptyDomain, emptyDomain] 0 2 [limitedInfo 0 noLimit, limitedInfo 1 256] (Shared.boot 4) rfl
    rfl (by decide) (by decide) (by decide)
  obtain ⟨infosMaxPages, filled, s', hfirst, hfilled, hrun⟩ := @xstatGetdominfo_filled
    (fun _ _ => .ok [limitedInfo 0 noLimit, limitedInfo 1 256]) [emptyDomain, emptyDomain] 0 2
    [limitedInfo 0 noLimit, limitedInfo 1 256] (Shared.boot 4) rfl rfl (by decide) (by decide)
  have hsecond := ((hfilled.byElement_iff hrun).mp hp 1 (limitedInfo 1 256) rfl).1.1
  rw [hfirst _ _ rfl] at hsecond
  exact absurd hsecond (by decide)

end Xenlib
