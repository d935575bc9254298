import Xenlib.Perm

/-!
Path checking and resolution: `xenstore_path_validate`, `construct_path` and
`xenstore_path_contains`.
-/

set_option autoImplicit false

namespace Xenlib

def xenstoreAbsPathMax : Nat := 3072
def xenstoreRelPathMax : Nat := 2048
/-- Room for "/local/domain/%domid/" with its NUL, for domids up to 32767. -/
def xenstoreMaxLocalpathLen : Nat := 21

def xenstorePathCharIsValid (c : CChar) : Bool :=
  (65 ≤ c.val && c.val ≤ 90) || (97 ≤ c.val && c.val ≤ 122) || (48 ≤ c.val && c.val ≤ 57) ||
    c.val = 45 || c.val = 95 || c.val = 64 || c.val = 47

/-- The scan of `xenstore_path_validate`: the last character seen, or nothing at an
invalid character or a doubled '/'. -/
def pathScan (prev : UInt8) : CString → Option UInt8
  | [] => some prev
  | c :: cs =>
    if !xenstorePathCharIsValid c then none
    else if c = slash && prev = 47 then none
    else pathScan c.val cs

def maxPathLen (path : CString) : Nat :=
  if xenstoreIsAbsPath path then xenstoreAbsPathMax else xenstoreRelPathMax

def xenstorePathValidate (path : CString) : Except Errno Unit :=
  if path = [] then .error .einval
  else if xenstoreIsRootPath path then .ok ()
  else match pathScan 0 path with
    | none => .error .einval
    | some prev =>
      if prev = 47 then .error .einval
      else if path.length + 1 > maxPathLen path then .error .e2big
      else .ok ()

/-- The text `construct_path` puts in its buffer: an absolute path as it is, a relative one
behind the directory of the domain, cut off by `snprintf` at the size of the buffer. -/
def pathText (payload : CString) (domid : UInt32) : Except Errno CString :=
  if xenstoreIsAbsPath payload then .ok payload
  else if (localDomainPath domid ++ payload).length + 1 > xenstoreAbsPathMax then .error .e2big
  else .ok ((localDomainPath domid ++ payload).take
    (payload.length + 1 + xenstoreMaxLocalpathLen - 1))

def constructPath (payload : CString) (domid : UInt32) : AllocM (Except Errno CString) := do
  match xenstorePathValidate payload with
  | .error e => pure (.error e)
  | .ok _ =>
    if ← kMalloc then pure (pathText payload domid) else pure (.error .enomem)

/-- `construct_path` with the allocation succeeding. -/
def resolvePath (payload : CString) (domid : UInt32) : Except Errno CString :=
  match xenstorePathValidate payload with
  | .error e => .error e
  | .ok _ => pathText payload domid

@[simp] theorem constructPath_nil (payload : CString) (domid : UInt32) :
    constructPath payload domid [] = .ok (resolvePath payload domid, []) := by
  unfold constructPath resolvePath
  cases xenstorePathValidate payload <;> rfl

theorem wp_constructPath {payload : CString} {domid : UInt32}
    {Q : Except Errno CString → List Bool → Prop} {E : Fault → Prop} {allocs : List Bool}
    (hok : ∀ rest, rest <:+ allocs → Q (resolvePath payload domid) rest)
    (hmem : ∀ rest, rest <:+ allocs → false ∈ allocs → Q (.error .enomem) rest) :
    Wp.wp (constructPath payload domid) Q E allocs := by
  unfold constructPath
  unfold resolvePath at hok
  cases hv : xenstorePathValidate payload with
  | error e => simp only [hv] at hok; exact hok allocs List.suffix_rfl
  | ok u =>
    simp only [hv] at hok
    rw [Wp.wp_bind]
    refine wp_kMalloc_drawn fun b rest hd => ?_
    cases b with
    | true => exact hok rest hd.suffix
    | false => exact hmem rest hd.suffix (hd.fail rfl)

/-- An output of `construct_path`. -/
def Normalized (path : CString) : Prop := ∃ payload domid, resolvePath payload domid = .ok path

def xenstorePathContains (parent child : CString) : Bool :=
  if parent = child then true
  else if xenstoreIsRootPath parent then child ≠ []
  else parent.isPrefixOf child && child[parent.length]? = some slash

theorem prefix_of_xenstorePathContains {parent child : CString}
    (h : xenstorePathContains parent child = true) (hr : parent ≠ [slash]) :
    parent <+: child := by
  unfold xenstorePathContains at h
  by_cases he : parent = child
  · exact he ▸ List.prefix_rfl
  have hroot : ¬ xenstoreIsRootPath parent = true := by rwa [xenstoreIsRootPath_iff]
  simp only [he, if_false, hroot, Bool.false_eq_true, Bool.and_eq_true] at h
  exact List.isPrefixOf_iff_prefix.mp h.1

theorem mem_of_pathScan {prev last : UInt8} {s : CString} (h : pathScan prev s = some last)
    (hs : s ≠ []) (hl : last ≠ 47) : ∃ c ∈ s, c ≠ slash := by
  induction s generalizing prev with
  | nil => contradiction
  | cons c cs ih =>
    unfold pathScan at h
    split at h
    · cases h
    split at h
    · cases h
    by_cases hcs : cs = []
    · subst hcs
      simp only [pathScan, Option.some.injEq] at h
      refine ⟨c, List.mem_cons_self, fun hc => hl ?_⟩
      rw [← h, hc]
      rfl
    · obtain ⟨d, hd, hne⟩ := ih h hcs
      exact ⟨d, List.mem_cons_of_mem _ hd, hne⟩

theorem tokensFrom_ne_nil {tok s : CString} (h : tok ≠ [] ∨ ∃ c ∈ s, c ≠ slash) :
    tokensFrom tok s ≠ [] := by
  induction s generalizing tok with
  | nil =>
    rcases h with h | ⟨c, hc, _⟩
    · simp [tokensFrom, h]
    · cases hc
  | cons c cs ih =>
    by_cases hc : c = slash
    · by_cases ht : tok = []
      · simp only [tokensFrom, hc, ht, if_true]
        refine ih (Or.inr ?_)
        rcases h with h | ⟨d, hd, hne⟩
        · exact absurd ht h
        · rcases List.mem_cons.mp hd with rfl | hd
          · exact absurd hc hne
          · exact ⟨d, hd, hne⟩
      · simp [tokensFrom, hc, ht]
    · simp only [tokensFrom, hc, if_false]
      exact ih (Or.inl (by simp))

theorem xenstorePathValidate_ok {path : CString} (h : xenstorePathValidate path = .ok ())
    (hr : path ≠ [slash]) :
    path ≠ [] ∧ (∃ last, pathScan 0 path = some last ∧ last ≠ 47) ∧
      path.length + 1 ≤ maxPathLen path := by
  unfold xenstorePathValidate at h
  by_cases hn : path = []
  · simp [hn] at h
  have hroot : ¬ xenstoreIsRootPath path = true := by rwa [xenstoreIsRootPath_iff]
  simp only [hn, if_false, hroot, Bool.false_eq_true] at h
  cases hs : pathScan 0 path with
  | none => simp [hs] at h
  | some last =>
    by_cases hl : last = 47
    · simp [hs, hl] at h
    by_cases hlen : path.length + 1 > maxPathLen path
    · simp [hs, hl, hlen] at h
    · exact ⟨hn, ⟨last, rfl, hl⟩, by omega⟩

theorem resolvePath_ok {payload path : CString} {domid : UInt32}
    (h : resolvePath payload domid = .ok path) :
    xenstorePathValidate payload = .ok () ∧ pathText payload domid = .ok path := by
  unfold resolvePath at h
  cases hv : xenstorePathValidate payload with
  | error e => simp [hv] at h
  | ok u => simp only [hv] at h; exact ⟨rfl, h⟩

theorem relative_take_two (payload : CString) (domid : UInt32) :
    (localDomainPath domid ++ payload).take 2 = [slash, ⟨108, by decide⟩] := rfl

theorem Normalized.tokens_ne_nil {path : CString} (h : Normalized path) (hr : path ≠ [slash]) :
    tokens path ≠ [] ∧ path.length ≤ xenstoreAbsPathMax := by
  obtain ⟨payload, domid, h⟩ := h
  obtain ⟨hv, ht⟩ := resolvePath_ok h
  unfold pathText at ht
  split at ht
  · rename_i ha
    cases ht
    obtain ⟨hn, ⟨last, hs, hl⟩, hlen⟩ := xenstorePathValidate_ok hv hr
    simp only [maxPathLen, ha, if_true] at hlen
    exact ⟨tokensFrom_ne_nil (Or.inr (mem_of_pathScan hs hn hl)), by omega⟩
  · split at ht
    · cases ht
    · rename_i hlen
      cases ht
      refine ⟨tokensFrom_ne_nil (Or.inr ⟨⟨108, by decide⟩, ?_, by decide⟩), ?_⟩
      · refine List.mem_of_mem_take (i := 2) ?_
        rw [List.take_take, Nat.min_eq_left (by simp only [xenstoreMaxLocalpathLen]; omega),
          relative_take_two]
        exact List.mem_cons_of_mem _ List.mem_cons_self
      · rw [List.length_take]
        omega

end Xenlib
