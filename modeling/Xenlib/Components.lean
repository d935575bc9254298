import Mathlib.Data.List.Chain
import Xenlib.EntrySpec

/-!
Paths and their components. The tree is walked along the components of a path, watches are
matched on its text: `xenstore_path_contains` compares components exactly where both paths are
spelled the way `construct_path` leaves them.
-/

set_option autoImplicit false

namespace Xenlib

/-- A '/' before each component. -/
def joined (toks : List CString) : CString := toks.flatMap (slash :: ·)

def renderPath (toks : List CString) : CString := if toks = [] then [slash] else joined toks

/-- Components as `strtok_r` finds them. -/
def Components (toks : List CString) : Prop := ∀ t ∈ toks, t ≠ [] ∧ slash ∉ t

def Boundary (rest : CString) : Prop := rest = [] ∨ rest.head? = some slash

theorem components_tokens (s : CString) : Components (tokens s) := fun _ h => tokens_spec h

@[simp] theorem joined_nil : joined [] = [] := rfl

@[simp] theorem joined_cons (t : CString) (toks : List CString) :
    joined (t :: toks) = slash :: (t ++ joined toks) := rfl

theorem joined_append (a b : List CString) : joined (a ++ b) = joined a ++ joined b :=
  List.flatMap_append

theorem joined_boundary (toks : List CString) : Boundary (joined toks) := by
  cases toks with
  | nil => exact Or.inl rfl
  | cons t toks => exact Or.inr rfl

theorem Boundary.append {a b : CString} (ha : Boundary a) (hb : Boundary b) :
    Boundary (a ++ b) := by
  cases a with
  | nil => exact hb
  | cons c a =>
    rcases ha with ha | ha
    · cases ha
    · exact Or.inr ha

theorem joined_length {toks : List CString} (h : Components toks) (hne : toks ≠ []) :
    2 ≤ (joined toks).length := by
  cases toks with
  | nil => contradiction
  | cons t toks =>
    have ht : 0 < t.length := List.length_pos_iff.mpr (h t List.mem_cons_self).1
    simp only [joined_cons, List.length_cons, List.length_append]
    omega

theorem tokensFrom_append {tok t rest : CString} (ht : slash ∉ t) :
    tokensFrom tok (t ++ rest) = tokensFrom (tok ++ t) rest := by
  induction t generalizing tok with
  | nil => simp
  | cons c t ih =>
    have hc : c ≠ slash := fun h => ht (by simp [h])
    have ht' : slash ∉ t := fun h => ht (List.mem_cons_of_mem _ h)
    simp only [List.cons_append, tokensFrom, hc, if_false]
    rw [ih ht']
    simp

theorem tokensFrom_boundary {tok rest : CString} (htok : tok ≠ []) (hb : Boundary rest) :
    tokensFrom tok rest = tok :: tokens rest := by
  cases rest with
  | nil => simp [tokensFrom, tokens, htok]
  | cons c rest =>
    rcases hb with hb | hb
    · cases hb
    · obtain rfl : c = slash := by simpa using hb
      simp [tokensFrom, tokens, htok]

theorem tokens_joined_append {a : List CString} {rest : CString} (ha : Components a)
    (hb : Boundary rest) : tokens (joined a ++ rest) = a ++ tokens rest := by
  induction a with
  | nil => rfl
  | cons t a ih =>
    obtain ⟨hne, hslash⟩ := ha t List.mem_cons_self
    have hstep : tokens (joined (t :: a) ++ rest) = tokensFrom [] (t ++ (joined a ++ rest)) := by
      simp [tokens, tokensFrom]
    rw [hstep, tokensFrom_append hslash, List.nil_append,
      tokensFrom_boundary hne ((joined_boundary a).append hb),
      ih fun u hu => ha u (List.mem_cons_of_mem _ hu), List.cons_append]

@[simp] theorem tokens_renderPath {a : List CString} (ha : Components a) :
    tokens (renderPath a) = a := by
  by_cases hne : a = []
  · subst hne
    rfl
  · rw [renderPath, if_neg hne]
    simpa [tokens, tokensFrom] using tokens_joined_append ha (Or.inl rfl : Boundary [])

theorem renderPath_ne_slash {a : List CString} (ha : Components a) (hne : a ≠ []) :
    renderPath a ≠ [slash] := by
  rw [renderPath, if_neg hne]
  intro h
  have hlen := joined_length ha hne
  simp [h] at hlen

theorem contains_render_iff {a : List CString} {p : CString} (ha : Components a) (hp : p ≠ []) :
    xenstorePathContains (renderPath a) p = true ↔
      a = [] ∨ ∃ rest, p = joined a ++ rest ∧ Boundary rest := by
  by_cases hne : a = []
  · subst hne
    have hroot : xenstoreIsRootPath (renderPath []) = true := by decide
    simp [xenstorePathContains, hroot, hp]
  · have hroot : ¬ xenstoreIsRootPath (renderPath a) = true := by
      rw [xenstoreIsRootPath_iff]
      exact renderPath_ne_slash ha hne
    simp only [xenstorePathContains, hroot, Bool.false_eq_true, if_false, hne, false_or]
    rw [renderPath, if_neg hne]
    constructor
    · intro h
      by_cases he : joined a = p
      · exact ⟨[], by simp [he], Or.inl rfl⟩
      · simp only [he, if_false, Bool.and_eq_true, List.isPrefixOf_iff_prefix] at h
        obtain ⟨⟨rest, rfl⟩, hnext⟩ := h
        refine ⟨rest, rfl, Or.inr ?_⟩
        simpa [List.getElem?_append_right, ← List.head?_eq_getElem?] using hnext
    · rintro ⟨rest, rfl, hb⟩
      rcases hb with rfl | hb
      · simp
      · by_cases he : joined a = joined a ++ rest
        · rw [if_pos he]
        · rw [if_neg he]
          have hnext : (joined a ++ rest)[(joined a).length]? = some slash := by
            rw [List.getElem?_append_right (le_refl _), Nat.sub_self, ← List.head?_eq_getElem?, hb]
          simp [hnext]

theorem prefix_of_contains_render {a : List CString} {p : CString} (ha : Components a)
    (hp : p ≠ []) (h : xenstorePathContains (renderPath a) p = true) : a <+: tokens p := by
  rcases (contains_render_iff ha hp).mp h with rfl | ⟨rest, rfl, hb⟩
  · exact List.nil_prefix
  · rw [tokens_joined_append ha hb]
    exact List.prefix_append _ _

theorem renderPath_ne_nil (a : List CString) : renderPath a ≠ [] := by
  cases a with
  | nil => decide
  | cons t a => exact List.cons_ne_nil _ _

theorem contains_renderPath {a b : List CString} (ha : Components a) (hb : Components b) :
    xenstorePathContains (renderPath a) (renderPath b) = true ↔ a <+: b := by
  constructor
  · intro h
    simpa [hb] using prefix_of_contains_render ha (renderPath_ne_nil b) h
  · rintro ⟨r, rfl⟩
    rw [contains_render_iff ha (renderPath_ne_nil _)]
    by_cases hne : a = []
    · exact Or.inl hne
    · refine Or.inr ⟨joined r, ?_, joined_boundary r⟩
      rw [renderPath, if_neg (by simp [hne]), joined_append]

/-- The path is spelled with one '/' before each component and none at its end. -/
def Canonical (path : CString) : Prop := renderPath (tokens path) = path

instance (path : CString) : Decidable (Canonical path) :=
  inferInstanceAs (Decidable (renderPath (tokens path) = path))

theorem Canonical.contains_iff {p q : CString} (hp : Canonical p) (hq : Canonical q) :
    xenstorePathContains p q = true ↔ tokens p <+: tokens q := by
  have h := contains_renderPath (components_tokens p) (components_tokens q)
  rwa [hp, hq] at h

theorem foundEntry_tokens {root : XsEntry} {path : CString} (ht : tokens path ≠ [])
    (hlen : path.length ≤ xenstoreAbsPathMax) :
    foundEntry root path = (root.lookup (tokens path)).map fun e => ⟨tokens path, e⟩ := by
  have hne : path ≠ [slash] := by
    rintro rfl
    exact ht rfl
  rw [foundEntry, if_neg (by omega), if_neg (by rwa [xenstoreIsRootPath_iff])]
  cases hc : tokens path with
  | nil => contradiction
  | cons tok toks => rfl

theorem foundEntry_canonical {root : XsEntry} {path : CString} (h : Canonical path)
    (hlen : path.length ≤ xenstoreAbsPathMax) :
    foundEntry root path = (root.lookup (tokens path)).map fun e => ⟨tokens path, e⟩ := by
  by_cases ht : tokens path = []
  · have hroot : path = [slash] := by rw [← h, ht]; rfl
    subst hroot
    rfl
  · exact foundEntry_tokens ht hlen

abbrev SingleSlashes (s : CString) : Prop := s.IsChain fun a b => ¬ (a = slash ∧ b = slash)

theorem singleSlashes_of_not_mem {s : CString} (h : slash ∉ s) : SingleSlashes s := by
  induction s with
  | nil => exact .nil
  | cons c s ih =>
    have hc : c ≠ slash := fun hc => h (by simp [hc])
    exact List.isChain_cons.mpr
      ⟨fun d _ hd => hc hd.1, ih fun hm => h (List.mem_cons_of_mem _ hm)⟩

/-- A text with single slashes is its components, each behind a '/', and perhaps one more '/'. -/
theorem joined_tokensFrom {tok s : CString} (hs : SingleSlashes s)
    (hhead : tok = [] → s.head? ≠ some slash) :
    ∃ rest, slash :: (tok ++ s) = joined (tokensFrom tok s) ++ rest ∧
      (rest = [] ∨ tok ++ s = [] ∨ s.getLast? = some slash) := by
  induction s generalizing tok with
  | nil =>
    by_cases ht : tok = []
    · exact ⟨[slash], by simp [tokensFrom, ht], Or.inr (Or.inl (by simp [ht]))⟩
    · exact ⟨[], by simp [tokensFrom, ht], Or.inl rfl⟩
  | cons c s ih =>
    have hchain := (List.isChain_cons.mp hs)
    by_cases hc : c = slash
    · have ht : tok ≠ [] := fun ht => hhead ht (by simp [hc])
      have hnext : s.head? ≠ some slash := fun hn => hchain.1 slash (by simp [hn]) ⟨hc, rfl⟩
      obtain ⟨rest, heq, hrest⟩ := @ih [] hchain.2 fun _ => hnext
      refine ⟨rest, ?_, ?_⟩
      · rw [List.nil_append] at heq
        simp [tokensFrom, hc, ht, ← heq]
      · rcases hrest with hrest | hrest | hrest
        · exact Or.inl hrest
        · obtain rfl : s = [] := by simpa using hrest
          exact Or.inr (Or.inr (by simp [hc]))
        · exact Or.inr (Or.inr (by rw [List.getLast?_cons, hrest]; rfl))
    · obtain ⟨rest, heq, hrest⟩ := @ih (tok ++ [c]) hchain.2 (by simp)
      refine ⟨rest, ?_, ?_⟩
      · simpa [tokensFrom, hc] using heq
      · rcases hrest with hrest | hrest | hrest
        · exact Or.inl hrest
        · simp at hrest
        · exact Or.inr (Or.inr (by rw [List.getLast?_cons, hrest]; rfl))

theorem singleSlashes_of_pathScan {prev last : UInt8} {s : CString}
    (h : pathScan prev s = some last) : SingleSlashes s ∧ (prev = 47 → s.head? ≠ some slash) ∧
      (s ≠ [] → s.getLast?.map Subtype.val = some last) := by
  induction s generalizing prev with
  | nil => exact ⟨.nil, fun _ => by simp, fun hne => absurd rfl hne⟩
  | cons c s ih =>
    unfold pathScan at h
    split at h
    · cases h
    split at h
    · cases h
    rename_i hc
    obtain ⟨hchain, hhead, hlast⟩ := ih h
    refine ⟨List.isChain_cons.mpr ⟨fun d hd hcd => ?_, hchain⟩, fun hp hs => ?_, fun _ => ?_⟩
    · exact hhead (by rw [hcd.1]; rfl) (by rw [← hcd.2]; exact hd)
    · obtain rfl : c = slash := by simpa using hs
      exact hc (by simp [hp])
    · by_cases hne : s = []
      · subst hne
        simpa [pathScan] using h
      · rw [List.getLast?_cons]
        have hsome := hlast hne
        cases hg : s.getLast? with
        | none => simp [hg] at hsome
        | some d => simpa [hg] using hsome

theorem decimal_digits (n : Nat) : decimal n ≠ [] ∧ slash ∉ decimal n := by
  have hval : ∀ c ∈ Nat.toDigits 10 n, 48 ≤ (UInt8.ofNat c.toNat).toNat := by
    intro c hc
    have hdigit := Nat.isDigit_of_mem_toDigits (by decide) (by decide) hc
    rw [Char.isDigit_iff_toNat] at hdigit
    have hzero : '0'.toNat = 48 := rfl
    have hnine : '9'.toNat = 57 := rfl
    rw [UInt8.toNat_ofNat']
    omega
  constructor
  · obtain ⟨c, hc⟩ := List.exists_mem_of_ne_nil _ (@Nat.toDigits_ne_nil n 10)
    have hne : UInt8.ofNat c.toNat ≠ 0 := by
      intro h
      simpa [h] using hval c hc
    exact List.ne_nil_of_mem (List.mem_filterMap.mpr ⟨c, hc, dif_pos hne⟩)
  · intro hmem
    obtain ⟨c, hc, heq⟩ := List.mem_filterMap.mp hmem
    split at heq
    · have hslash : UInt8.ofNat c.toNat = 47 := congrArg Subtype.val (Option.some.inj heq)
      simpa [hslash] using hval c hc
    · cases heq

theorem decimalInt_digits (domid : UInt32) : decimalInt domid ≠ [] ∧ slash ∉ decimalInt domid := by
  unfold decimalInt
  split
  · exact decimal_digits _
  · refine ⟨by simp [ascii], fun hmem => ?_⟩
    rcases List.mem_append.mp hmem with hmem | hmem
    · exact absurd hmem (by decide)
    · exact (decimal_digits _).2 hmem

theorem singleSlashes_localDomainPath {payload : CString} (domid : UInt32)
    (hp : SingleSlashes payload) (hrel : payload.head? ≠ some slash) :
    SingleSlashes (localDomainPath domid ++ payload) := by
  obtain ⟨hne, hfree⟩ := decimalInt_digits domid
  have hlast : ∀ c ∈ (decimalInt domid).getLast?, c ≠ slash := by
    rintro c hc rfl
    exact hfree (List.mem_of_getLast? hc)
  unfold localDomainPath
  rw [SingleSlashes, List.isChain_append, List.isChain_append, List.isChain_append]
  refine ⟨⟨⟨by decide, singleSlashes_of_not_mem hfree, fun c _ d hd hcd => ?_⟩,
    List.isChain_singleton _, fun c hc d _ hcd => ?_⟩, hp, fun c _ d hd hcd => ?_⟩
  · rw [hcd.2] at hd
    exact hfree (List.mem_of_head? hd)
  · rw [List.getLast?_append_of_ne_nil _ hne] at hc
    exact hlast c hc hcd.1
  · rw [hcd.2] at hd
    exact hrel hd

theorem singleSlashes_of_validate {path : CString} (h : xenstorePathValidate path = .ok ())
    (hr : path ≠ [slash]) : SingleSlashes path ∧ path.getLast? ≠ some slash := by
  obtain ⟨hne, ⟨last, hscan, hlast⟩, -⟩ := xenstorePathValidate_ok h hr
  obtain ⟨hs, -, hl⟩ := singleSlashes_of_pathScan hscan
  refine ⟨hs, fun hbad => hlast ?_⟩
  have hval := hl hne
  rw [hbad] at hval
  exact (Option.some.inj hval).symm

theorem render_prefix_of_singleSlashes {path : CString} (ha : xenstoreIsAbsPath path = true)
    (hs : SingleSlashes path) (ht : tokens path ≠ []) :
    renderPath (tokens path) <+: path ∧ (path.getLast? ≠ some slash → Canonical path) := by
  cases path with
  | nil => contradiction
  | cons c path =>
    obtain rfl : c = slash := by simpa [xenstoreIsAbsPath] using ha
    have hchain := List.isChain_cons.mp hs
    have htok : tokens (slash :: path) = tokensFrom [] path := by simp [tokens, tokensFrom]
    obtain ⟨rest, heq, hrest⟩ := @joined_tokensFrom [] path hchain.2
      fun _ hn => hchain.1 slash (by simp [hn]) ⟨rfl, rfl⟩
    rw [List.nil_append] at heq hrest
    rw [Canonical, renderPath, if_neg ht, htok]
    refine ⟨⟨rest, heq.symm⟩, fun hlast => ?_⟩
    rcases hrest with rfl | rfl | hrest
    · rw [heq, List.append_nil]
    · exact absurd htok ht
    · exact absurd (by rw [List.getLast?_cons, hrest]; rfl) hlast

/-- The path is absolute and passes the check: the normalized paths a watch can be set on. -/
def NormalPath (path : CString) : Prop :=
  xenstoreIsAbsPath path = true ∧ xenstorePathValidate path = .ok ()

instance (path : CString) : Decidable (NormalPath path) :=
  inferInstanceAs (Decidable (_ ∧ _))

theorem NormalPath.canonical {path : CString} (h : NormalPath path) : Canonical path := by
  by_cases hr : path = [slash]
  · subst hr
    decide
  · obtain ⟨hs, hlast⟩ := singleSlashes_of_validate h.2 hr
    obtain ⟨ht, -⟩ := Normalized.tokens_ne_nil ⟨path, 0, by
      rw [resolvePath, h.2]
      exact if_pos h.1⟩ hr
    exact (render_prefix_of_singleSlashes h.1 hs ht).2 hlast

theorem NormalPath.length {path : CString} (h : NormalPath path) :
    path.length ≤ xenstoreAbsPathMax := by
  by_cases hr : path = [slash]
  · subst hr
    decide
  · obtain ⟨-, -, hlen⟩ := xenstorePathValidate_ok h.2 hr
    rw [maxPathLen, if_pos h.1] at hlen
    omega

/-- The components of a resolved path are spelled out at its start. Only where the buffer of
`construct_path` cuts the text off can a '/' be left at its end. -/
theorem resolvePath_spelled {payload path : CString} {domid : UInt32}
    (h : resolvePath payload domid = .ok path) (hr : path ≠ [slash]) :
    renderPath (tokens path) <+: path ∧ (path.getLast? ≠ some slash → Canonical path) := by
  obtain ⟨ht, -⟩ := Normalized.tokens_ne_nil ⟨payload, domid, h⟩ hr
  obtain ⟨hv, htext⟩ := resolvePath_ok h
  unfold pathText at htext
  split at htext
  · rename_i ha
    cases htext
    exact render_prefix_of_singleSlashes ha (singleSlashes_of_validate hv hr).1 ht
  · rename_i ha
    split at htext
    · cases htext
    · cases htext
      have hrel : payload.head? ≠ some slash := by simpa [xenstoreIsAbsPath] using ha
      have hne : payload ≠ [slash] := by
        rintro rfl
        exact hrel rfl
      have hs := singleSlashes_localDomainPath domid (singleSlashes_of_validate hv hne).1 hrel
      exact render_prefix_of_singleSlashes rfl (hs.take _) ht

theorem render_prefix_of_resolvePath {payload path : CString} {domid : UInt32}
    (h : resolvePath payload domid = .ok path) (hr : path ≠ [slash]) :
    renderPath (tokens path) <+: path :=
  (resolvePath_spelled h hr).1

/-- Where the directory of the domain fits in its part of the buffer, nothing is cut off. -/
theorem canonical_of_resolvePath {payload path : CString} {domid : UInt32}
    (hdir : (localDomainPath domid).length < xenstoreMaxLocalpathLen)
    (h : resolvePath payload domid = .ok path) : Canonical path := by
  obtain ⟨hv, htext⟩ := resolvePath_ok h
  unfold pathText at htext
  split at htext
  · rename_i ha
    cases htext
    exact NormalPath.canonical ⟨ha, hv⟩
  · rename_i ha
    split at htext
    · cases htext
    · have hfit : (localDomainPath domid ++ payload).length ≤
          payload.length + 1 + xenstoreMaxLocalpathLen - 1 := by
        rw [List.length_append]
        omega
      rw [List.take_of_length_le hfit] at htext
      cases htext
      have hpay : payload ≠ [] := by
        rintro rfl
        cases hv
      have hne : payload ≠ [slash] := by
        rintro rfl
        exact ha rfl
      have hlast : (localDomainPath domid ++ payload).getLast? ≠ some slash := by
        rw [List.getLast?_append_of_ne_nil _ hpay]
        exact (singleSlashes_of_validate hv hne).2
      refine (resolvePath_spelled h fun hroot => hlast ?_).2 hlast
      rw [hroot]
      rfl

theorem canonical_of_resolvePath_zero {payload path : CString}
    (h : resolvePath payload 0 = .ok path) : Canonical path :=
  canonical_of_resolvePath (by decide) h

end Xenlib
