import Xenlib.Decimal

/-!
The paths `construct_path` accepts, as a grammar, and what it makes of them.
-/

set_option autoImplicit false

namespace Xenlib

/-- A character of [A-Za-z0-9_@-]. -/
def NameChar (c : CChar) : Prop :=
  (65 ≤ c.val ∧ c.val ≤ 90) ∨ (97 ≤ c.val ∧ c.val ≤ 122) ∨ (48 ≤ c.val ∧ c.val ≤ 57) ∨
    c.val = 95 ∨ c.val = 64 ∨ c.val = 45

def Name (k : CString) : Prop := k ≠ [] ∧ ∀ c ∈ k, NameChar c

/-- "/", or names joined by single slashes, with or without a '/' before the first. -/
def PathShape (s : CString) : Prop :=
  s = [slash] ∨ ∃ ks, ks ≠ [] ∧ (∀ k ∈ ks, Name k) ∧
    (s = [slash].intercalate ks ∨ s = slash :: [slash].intercalate ks)

/-- At most 3072 bytes with the NUL, or 2048 for a relative path. -/
def PathFits (s : CString) : Prop :=
  s.length + 1 ≤ if s.head? = some slash then 3072 else 2048

theorem nameChar_iff (c : CChar) :
    NameChar c ↔ xenstorePathCharIsValid c = true ∧ c ≠ slash := by
  have hslash : c = slash ↔ c.val = 47 := Subtype.ext_iff
  simp only [NameChar, xenstorePathCharIsValid, Bool.or_eq_true, Bool.and_eq_true,
    decide_eq_true_eq, ne_eq, hslash, UInt8.le_iff_toNat_le, ← UInt8.toNat_inj]
  simp only [UInt8.reduceToNat]
  omega

theorem valid_slash : xenstorePathCharIsValid slash = true := by decide

theorem Name.components {ks : List CString} (h : ∀ k ∈ ks, Name k) : Components ks :=
  fun k hk => ⟨(h k hk).1, fun hs => ((nameChar_iff slash).mp ((h k hk).2 slash hs)).2 rfl⟩

theorem isDigit_nameChar {c : CChar} (h : isDigit c = true) : NameChar c := by
  simp only [isDigit, Bool.and_eq_true, decide_eq_true_eq] at h
  exact Or.inr (Or.inr (Or.inl h))

theorem joined_eq_intercalate {ks : List CString} (h : ks ≠ []) :
    joined ks = slash :: [slash].intercalate ks := by
  induction ks with
  | nil => contradiction
  | cons k ks ih =>
    cases ks with
    | nil => simp [List.intercalate]
    | cons j ks =>
      rw [joined_cons, ih (List.cons_ne_nil _ _)]
      simp [List.intercalate]

theorem pathScan_name {k rest : CString} (hk : ∀ c ∈ k, NameChar c) (prev : UInt8)
    (hprev : prev ≠ 47) : ∃ last, last ≠ 47 ∧ pathScan prev (k ++ rest) = pathScan last rest := by
  induction k generalizing prev with
  | nil => exact ⟨prev, hprev, rfl⟩
  | cons c k ih =>
    obtain ⟨hvalid, hne⟩ := (nameChar_iff c).mp (hk c List.mem_cons_self)
    have hval : c.val ≠ 47 := fun h => hne (Subtype.ext h)
    obtain ⟨last, hlast, heq⟩ := ih (fun d hd => hk d (List.mem_cons_of_mem _ hd)) c.val hval
    refine ⟨last, hlast, ?_⟩
    rw [List.cons_append, pathScan, hvalid, ← heq]
    simp [hne]

theorem pathScan_joined {ks : List CString} (h : ∀ k ∈ ks, Name k) (prev : UInt8)
    (hprev : prev ≠ 47) : ∃ last, last ≠ 47 ∧ pathScan prev (joined ks) = some last := by
  induction ks generalizing prev with
  | nil => exact ⟨prev, hprev, rfl⟩
  | cons k ks ih =>
    obtain ⟨hne, hk⟩ := h k List.mem_cons_self
    cases k with
    | nil => contradiction
    | cons c k =>
      obtain ⟨hvalid, hc⟩ := (nameChar_iff c).mp (hk c List.mem_cons_self)
      have hval : c.val ≠ 47 := fun h => hc (Subtype.ext h)
      obtain ⟨last, hlast, heq⟩ := @pathScan_name k (joined ks)
        (fun d hd => hk d (List.mem_cons_of_mem _ hd)) c.val hval
      obtain ⟨last', hlast', heq'⟩ := ih (fun j hj => h j (List.mem_cons_of_mem _ hj)) last hlast
      refine ⟨last', hlast', ?_⟩
      rw [joined_cons, List.cons_append, pathScan, pathScan, valid_slash, hvalid, heq, heq']
      simp [hprev, hc]

theorem valid_of_pathScan {prev last : UInt8} {s : CString} (h : pathScan prev s = some last) :
    ∀ c ∈ s, xenstorePathCharIsValid c = true := by
  induction s generalizing prev with
  | nil => simp
  | cons c s ih =>
    unfold pathScan at h
    split at h
    · cases h
    · rename_i hc
      split at h
      · cases h
      · intro d hd
        rcases List.mem_cons.mp hd with rfl | hd
        · simpa using hc
        · exact ih h d hd

theorem names_of_joined {ks : List CString} (hks : Components ks)
    (hs : ∀ c ∈ joined ks, xenstorePathCharIsValid c = true) : ∀ k ∈ ks, Name k := by
  intro k hk
  refine ⟨(hks k hk).1, fun c hc => (nameChar_iff c).mpr ⟨hs c ?_, fun h => ?_⟩⟩
  · exact List.mem_flatMap.mpr ⟨k, hk, List.mem_cons_of_mem _ hc⟩
  · exact (hks k hk).2 (h ▸ hc)

/-- The scan accepts exactly the joined names. -/
theorem pathScan_iff {s : CString} (hne : s ≠ []) :
    (∃ last, pathScan 0 s = some last ∧ last ≠ 47) ↔
      ∃ ks, ks ≠ [] ∧ (∀ k ∈ ks, Name k) ∧
        (s = [slash].intercalate ks ∨ s = slash :: [slash].intercalate ks) := by
  constructor
  · rintro ⟨last, hscan, hlast⟩
    obtain ⟨hsingle, -, hend⟩ := singleSlashes_of_pathScan hscan
    have hvalid := valid_of_pathScan hscan
    have htok : tokens s ≠ [] := tokensFrom_ne_nil (Or.inr (mem_of_pathScan hscan hne hlast))
    have hgetLast : s.getLast? ≠ some slash := by
      intro hbad
      have hval := hend hne
      rw [hbad] at hval
      exact hlast (Option.some.inj hval).symm
    refine ⟨tokens s, htok, ?_⟩
    by_cases ha : s.head? = some slash
    · have habs : xenstoreIsAbsPath s = true := by simpa [xenstoreIsAbsPath] using ha
      have hcan := (render_prefix_of_singleSlashes habs hsingle htok).2 hgetLast
      rw [Canonical, renderPath, if_neg htok] at hcan
      refine ⟨names_of_joined (components_tokens s) (by rw [hcan]; exact hvalid), Or.inr ?_⟩
      rw [← joined_eq_intercalate htok, hcan]
    · have hchain : SingleSlashes (slash :: s) := List.isChain_cons.mpr
        ⟨fun c hc hcd => ha (by rw [← hcd.2]; exact hc), hsingle⟩
      have htokens : tokens (slash :: s) = tokens s := by simp [tokens, tokensFrom]
      have hcan := (render_prefix_of_singleSlashes rfl hchain (htokens ▸ htok)).2 (by
        rw [List.getLast?_cons]
        cases hg : s.getLast? with
        | none => exact absurd (List.getLast?_eq_none_iff.mp hg) hne
        | some c => simpa [hg] using hgetLast)
      rw [Canonical, renderPath, htokens, if_neg htok] at hcan
      refine ⟨names_of_joined (components_tokens s) ?_, Or.inl ?_⟩
      · rw [hcan]
        intro c hc
        rcases List.mem_cons.mp hc with rfl | hc
        · exact valid_slash
        · exact hvalid c hc
      · rw [joined_eq_intercalate htok] at hcan
        exact (List.cons.inj hcan).2.symm
  · rintro ⟨ks, hks, hnames, hs⟩
    rcases hs with rfl | rfl
    · cases ks with
      | nil => contradiction
      | cons k ks =>
        have hjoin : [slash].intercalate (k :: ks) = k ++ joined ks := by
          have h := joined_eq_intercalate hks
          rw [joined_cons] at h
          exact (List.cons.inj h).2.symm
        obtain ⟨last, hlast, heq⟩ := @pathScan_name k (joined ks) (hnames k List.mem_cons_self).2 0
          (by decide)
        obtain ⟨last', hlast', heq'⟩ :=
          pathScan_joined (fun j hj => hnames j (List.mem_cons_of_mem _ hj)) last hlast
        exact ⟨last', by rw [hjoin, heq, heq'], hlast'⟩
    · obtain ⟨last, hlast, heq⟩ := pathScan_joined hnames 0 (by decide)
      exact ⟨last, by rw [← joined_eq_intercalate hks, heq], hlast⟩

theorem isAbsPath_iff (s : CString) : xenstoreIsAbsPath s = true ↔ s.head? = some slash := by
  simp [xenstoreIsAbsPath]

theorem pathFits_iff (s : CString) : PathFits s ↔ s.length + 1 ≤ maxPathLen s := by
  unfold PathFits maxPathLen
  by_cases ha : s.head? = some slash
  · rw [if_pos ha, if_pos ((isAbsPath_iff s).mpr ha)]
    rfl
  · rw [if_neg ha, if_neg fun h => ha ((isAbsPath_iff s).mp h)]
    rfl

theorem pathShape_iff {s : CString} (hne : s ≠ []) (hr : s ≠ [slash]) :
    PathShape s ↔ ∃ last, pathScan 0 s = some last ∧ last ≠ 47 := by
  rw [pathScan_iff hne, PathShape]
  exact or_iff_right hr

theorem not_pathShape_nil : ¬ PathShape [] := by
  rintro (h | ⟨ks, hks, hnames, h | h⟩)
  · cases h
  · have hj := joined_eq_intercalate hks
    rw [← h] at hj
    have hlen := joined_length (Name.components hnames) hks
    simp [hj] at hlen
  · cases h

theorem xenstorePathValidate_eq (s : CString) :
    (PathShape s → PathFits s → xenstorePathValidate s = .ok ()) ∧
    (PathShape s → ¬ PathFits s → xenstorePathValidate s = .error .e2big) ∧
    (¬ PathShape s → xenstorePathValidate s = .error .einval) := by
  by_cases hne : s = []
  · subst hne
    exact ⟨fun h => absurd h not_pathShape_nil, fun h => absurd h not_pathShape_nil, fun _ => rfl⟩
  by_cases hr : s = [slash]
  · subst hr
    have hfits : PathFits [slash] := by simp [PathFits]
    exact ⟨fun _ _ => rfl, fun _ h => absurd hfits h, fun h => absurd (Or.inl rfl) h⟩
  have hroot : ¬ xenstoreIsRootPath s = true := by rwa [xenstoreIsRootPath_iff]
  rw [pathShape_iff hne hr, pathFits_iff]
  unfold xenstorePathValidate
  rw [if_neg hne, if_neg hroot]
  cases hscan : pathScan 0 s with
  | none => simp
  | some last =>
    by_cases hl : last = 47
    · simp [hl]
    · by_cases hlen : s.length + 1 ≤ maxPathLen s
      · have hle : ¬ s.length + 1 > maxPathLen s := by omega
        simp [hl, hlen, hle]
      · have hgt : s.length + 1 > maxPathLen s := by omega
        simp [hl, hlen, hgt]

section Resolved
variable {s : CString} {domid : UInt32}

def domainDir (domid : UInt32) : List CString :=
  [ascii ['l', 'o', 'c', 'a', 'l'], ascii ['d', 'o', 'm', 'a', 'i', 'n'], decimal domid.toNat]

theorem name_of_all {k : CString} (hne : k ≠ [])
    (h : (k.all fun c => xenstorePathCharIsValid c && c != slash) = true) : Name k := by
  refine ⟨hne, fun c hc => (nameChar_iff c).mpr ?_⟩
  simpa using List.all_eq_true.mp h c hc

theorem domainDir_names (domid : UInt32) : ∀ k ∈ domainDir domid, Name k := by
  intro k hk
  simp only [domainDir, List.mem_cons, List.not_mem_nil, or_false] at hk
  rcases hk with rfl | rfl | rfl
  · exact name_of_all (by decide) (by decide)
  · exact name_of_all (by decide) (by decide)
  · exact ⟨(decimal_digits _).1, fun c hc => isDigit_nameChar (decimal_isDigit hc)⟩

theorem localDomainPath_joined (hd : domid.toNat ≤ 32767) :
    localDomainPath domid ++ s = joined (domainDir domid) ++ (slash :: s) := by
  have hdec : decimalInt domid = decimal domid.toNat := if_pos (by omega)
  rw [localDomainPath, hdec]
  simp [domainDir, joined, ascii, slash]

theorem localDomainPath_length (hd : domid.toNat ≤ 32767) :
    (localDomainPath domid).length ≤ 20 := by
  have hdec : decimalInt domid = decimal domid.toNat := if_pos (by omega)
  have hlen : (decimal domid.toNat).length ≤ 5 := decimal_length_le (by decide) (by omega)
  have hdir : (ascii ['/', 'l', 'o', 'c', 'a', 'l', '/', 'd', 'o', 'm', 'a', 'i', 'n',
    '/']).length = 14 := by decide
  rw [localDomainPath, hdec, List.length_append, List.length_append, hdir]
  simp only [List.length_singleton]
  omega

theorem pathShape_localDomainPath (hd : domid.toNat ≤ 32767) (hs : PathShape s)
    (hrel : s.head? ≠ some slash) : PathShape (localDomainPath domid ++ s) := by
  rcases hs with rfl | ⟨ks, hks, hnames, rfl | rfl⟩
  · exact absurd rfl hrel
  · have hall : domainDir domid ++ ks ≠ [] := List.append_ne_nil_of_right_ne_nil _ hks
    refine Or.inr ⟨domainDir domid ++ ks, hall, fun k hk => ?_, Or.inr ?_⟩
    · rcases List.mem_append.mp hk with hk | hk
      · exact domainDir_names domid k hk
      · exact hnames k hk
    · rw [localDomainPath_joined hd, ← joined_eq_intercalate hks, ← joined_append]
      exact joined_eq_intercalate hall
  · exact absurd rfl hrel

theorem resolvePath_eq (hd : domid.toNat ≤ 32767) :
    (PathShape s → PathFits s → resolvePath s domid =
      .ok (if s.head? = some slash then s else localDomainPath domid ++ s)) ∧
    (PathShape s → ¬ PathFits s → resolvePath s domid = .error .e2big) ∧
    (¬ PathShape s → resolvePath s domid = .error .einval) := by
  obtain ⟨hok, hbig, hinval⟩ := xenstorePathValidate_eq s
  refine ⟨fun hs hf => ?_, fun hs hf => ?_, fun hs => ?_⟩
  · unfold resolvePath pathText
    rw [hok hs hf]
    by_cases ha : s.head? = some slash
    · rw [if_pos ha]
      exact if_pos ((isAbsPath_iff s).mpr ha)
    · have hdir := localDomainPath_length hd
      rw [PathFits, if_neg ha] at hf
      have hlen : (localDomainPath domid ++ s).length = (localDomainPath domid).length + s.length :=
        List.length_append
      rw [if_neg ha]
      dsimp only
      rw [if_neg fun h => ha ((isAbsPath_iff s).mp h), if_neg (by
        rw [hlen, xenstoreAbsPathMax]
        omega), List.take_of_length_le (by
        rw [hlen, xenstoreMaxLocalpathLen]
        omega)]
  · unfold resolvePath
    rw [hbig hs hf]
  · unfold resolvePath
    rw [hinval hs]

theorem resolvePath_below (hd : domid.toNat ≤ 32767) (ha : s.head? ≠ some slash) {path : CString}
    (h : resolvePath s domid = .ok path) : path = localDomainPath domid ++ s := by
  obtain ⟨hok, hbig, hinval⟩ := @resolvePath_eq s domid hd
  by_cases hshape : PathShape s
  · by_cases hfits : PathFits s
    · rw [hok hshape hfits, if_neg ha] at h
      exact (Except.ok.inj h).symm
    · rw [hbig hshape hfits] at h
      cases h
  · rw [hinval hshape] at h
    cases h

theorem resolved_shape (hd : domid.toNat ≤ 32767) (hs : PathShape s) (hf : PathFits s) :
    (if s.head? = some slash then s else localDomainPath domid ++ s).head? = some slash ∧
      PathShape (if s.head? = some slash then s else localDomainPath domid ++ s) ∧
      (if s.head? = some slash then s else localDomainPath domid ++ s).length + 1 ≤ 3072 := by
  by_cases ha : s.head? = some slash
  · rw [PathFits, if_pos ha] at hf
    rw [if_pos ha]
    exact ⟨ha, hs, hf⟩
  · have hdir := localDomainPath_length hd
    rw [PathFits, if_neg ha] at hf
    rw [if_neg ha]
    refine ⟨rfl, pathShape_localDomainPath hd hs ha, ?_⟩
    rw [List.length_append]
    omega

end Resolved

/-- `construct_path` accepts exactly the grammar; what it returns is the path itself or the
path below the directory of the domain, is not cut off and is returned as it is when it is
resolved again, by whichever domain. -/
theorem constructPath_grammar (s : CString) (domid : UInt32) (hd : domid.toNat ≤ 32767)
    (allocs : List Bool) (hmem : allocs.getD 0 true = true) :
    ∃ r rest, constructPath s domid allocs = .ok (r, rest) ∧
      ((∃ q, r = .ok q) ↔ PathShape s ∧ PathFits s) ∧
      (∀ q, r = .ok q →
        q = (if s.head? = some slash then s else localDomainPath domid ++ s) ∧
        q.length + 1 ≤ 3072 ∧
        ∀ domid' : UInt32, domid'.toNat ≤ 32767 → constructPath q domid' [] = .ok (.ok q, [])) ∧
      (r = .error .e2big ↔ PathShape s ∧ ¬ PathFits s) ∧
      (r = .error .einval ↔ ¬ PathShape s) := by
  have hrun : ∃ rest, constructPath s domid allocs = .ok (resolvePath s domid, rest) := by
    have hspec : Wp.wp (constructPath s domid) (fun r _ => r = resolvePath s domid)
        (fun _ => False) allocs := by
      unfold constructPath resolvePath
      cases xenstorePathValidate s with
      | error e => rfl
      | ok u =>
        simp only [Wp.wp_bind]
        cases allocs with
        | nil => rfl
        | cons b bs =>
          cases b with
          | true => rfl
          | false => cases hmem
    obtain ⟨r, rest, hr, rfl⟩ := Wp.wp_total hspec
    exact ⟨rest, hr⟩
  obtain ⟨rest, hrun⟩ := hrun
  obtain ⟨hok, hbig, hinval⟩ := @resolvePath_eq s domid hd
  refine ⟨_, rest, hrun, ?_⟩
  by_cases hs : PathShape s
  · by_cases hf : PathFits s
    · rw [hok hs hf]
      obtain ⟨habs, hshape, hlen⟩ := resolved_shape hd hs hf
      refine ⟨by simp [hs, hf], ?_, by simp [hf], by simp [hs]⟩
      intro q hq
      cases hq
      refine ⟨rfl, hlen, fun domid' hd' => ?_⟩
      have hfits : PathFits (if s.head? = some slash then s else localDomainPath domid ++ s) := by
        rw [PathFits, if_pos habs]
        exact hlen
      rw [constructPath_nil, (@resolvePath_eq _ domid' hd').1 hshape hfits, if_pos habs]
    · rw [hbig hs hf]
      refine ⟨by simp [hf], (fun q hq => by cases hq), by simp [hs, hf], by simp [hs]⟩
  · rw [hinval hs]
    refine ⟨by simp [hs], (fun q hq => by cases hq), by simp [hs], by simp [hs]⟩

/-- Domain 7 resolves "a-b/c". -/
theorem constructPath_grammar_relative :
    ∃ r rest, constructPath (ascii ['a', '-', 'b', '/', 'c']) 7 [true] = .ok (r, rest) ∧
      r = .ok (ascii ['/', 'l', 'o', 'c', 'a', 'l', '/', 'd', 'o', 'm', 'a', 'i', 'n', '/', '7',
        '/', 'a', '-', 'b', '/', 'c']) ∧
      PathShape (ascii ['a', '-', 'b', '/', 'c']) := by
  obtain ⟨r, rest, hrun, hiff, -⟩ :=
    constructPath_grammar (ascii ['a', '-', 'b', '/', 'c']) 7 (by decide) [true] rfl
  have hr : r = .ok (ascii ['/', 'l', 'o', 'c', 'a', 'l', '/', 'd', 'o', 'm', 'a', 'i', 'n', '/',
      '7', '/', 'a', '-', 'b', '/', 'c']) := by
    have hrun' : constructPath (ascii ['a', '-', 'b', '/', 'c']) 7 [true] =
        .ok (.ok (ascii ['/', 'l', 'o', 'c', 'a', 'l', '/', 'd', 'o', 'm', 'a', 'i', 'n', '/',
          '7', '/', 'a', '-', 'b', '/', 'c']), []) := by decide
    rw [hrun'] at hrun
    cases hrun
    rfl
  exact ⟨r, rest, hrun, hr, (hiff.mp ⟨_, hr⟩).1⟩

end Xenlib
