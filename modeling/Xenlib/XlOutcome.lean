import Mathlib.Data.List.Perm.Subperm
import Xenlib.XlRecords

/-!
What the result of a record says. The loop ends on the first device that cannot be stored in the
way it ends after the last one, so that a record of a known kind always succeeds.
-/

set_option autoImplicit false

namespace Xenlib

/-- Every second part of a record cut at its quotes, with the part behind it. -/
def quotedTexts : List CString → List (CString × CString)
  | _ :: text :: after :: rest => (text, after) :: quotedTexts (after :: rest)
  | _ => []

def recordTexts (str : CString) : List (CString × CString) := quotedTexts (str.splitOn quote)

/-- There is no quoted text, or a quote that is not closed. -/
def QuoteMissing (str : CString) : Prop := quote ∉ str ∨ str.count quote % 2 = 1

theorem quotedTexts_head (a b : CString) (parts : List CString) :
    quotedTexts (a :: parts) = quotedTexts (b :: parts) := by
  cases parts with
  | nil => rfl
  | cons t parts =>
    cases parts with
    | nil => rfl
    | cons s parts => rfl

theorem record_cases (str : CString) :
    quote ∉ str ∨
    (∃ opening text, str = opening ++ quote :: text ∧ quote ∉ opening ∧ quote ∉ text) ∨
    (∃ opening text rest, str = opening ++ quote :: (text ++ quote :: rest) ∧
      quote ∉ opening ∧ quote ∉ text) := by
  by_cases h : quote ∈ str
  · obtain ⟨opening, behind, rfl, ho⟩ := List.eq_append_cons_of_mem h
    by_cases hb : quote ∈ behind
    · obtain ⟨text, rest, rfl, ht⟩ := List.eq_append_cons_of_mem hb
      exact Or.inr (Or.inr ⟨opening, text, rest, rfl, ho, ht⟩)
    · exact Or.inr (Or.inl ⟨opening, behind, rfl, ho, hb⟩)
  · exact Or.inl h

/-- Induction on the quoted texts. What is behind a text may be cut at the front. -/
theorem record_induction {P : CString → Prop} (unopened : ∀ str, quote ∉ str → P str)
    (unclosed : ∀ opening text, quote ∉ opening → quote ∉ text → P (opening ++ quote :: text))
    (quoted : ∀ opening text rest, quote ∉ opening → quote ∉ text →
      (∀ next, next.length ≤ rest.length → P next) →
        P (opening ++ quote :: (text ++ quote :: rest)))
    (str : CString) : P str := by
  induction hn : str.length using Nat.strong_induction_on generalizing str with
  | _ n ih =>
    rcases record_cases str with h | ⟨opening, text, rfl, ho, ht⟩ |
      ⟨opening, text, rest, rfl, ho, ht⟩
    · exact unopened str h
    · exact unclosed opening text ho ht
    · refine quoted opening text rest ho ht fun next hnext => ih _ ?_ next rfl
      simp only [← hn, List.length_append, List.length_cons]
      omega

section Texts
variable {opening text rest before : CString}

theorem recordTexts_unopened {str : CString} (h : quote ∉ str) : recordTexts str = [] := by
  rw [recordTexts, List.splitOn_eq_singleton h]
  rfl

theorem recordTexts_unclosed (ho : quote ∉ opening) (ht : quote ∉ text) :
    recordTexts (opening ++ quote :: text) = [] := by
  rw [recordTexts, List.splitOn_append_cons_self_of_not_mem ho, List.splitOn_eq_singleton ht]
  rfl

theorem splitOn_head (str : CString) :
    ∃ parts, str.splitOn quote = str.takeWhile (· ≠ quote) :: parts := by
  by_cases h : quote ∈ str
  · obtain ⟨before, after, rfl, hb⟩ := List.eq_append_cons_of_mem h
    refine ⟨after.splitOn quote, ?_⟩
    rw [List.splitOn_append_cons_self_of_not_mem hb, List.takeWhile_append_of_pos]
    · simp
    · intro c hc
      simp only [decide_not, Bool.not_eq_true', decide_eq_false_iff_not]
      rintro rfl
      exact hb hc
  · refine ⟨[], ?_⟩
    rw [List.splitOn_eq_singleton h, List.takeWhile_eq_self_iff.mpr]
    intro c hc
    simp only [decide_not, Bool.not_eq_true', decide_eq_false_iff_not]
    rintro rfl
    exact h hc

theorem recordTexts_cons (ho : quote ∉ opening) (ht : quote ∉ text) :
    recordTexts (opening ++ quote :: (text ++ quote :: rest)) =
      (text, rest.takeWhile (· ≠ quote)) :: recordTexts rest := by
  obtain ⟨parts, hparts⟩ := splitOn_head rest
  rw [recordTexts, recordTexts, List.splitOn_append_cons_self_of_not_mem ho,
    List.splitOn_append_cons_self_of_not_mem ht, hparts]
  rfl

theorem recordTexts_skip (h : quote ∉ before) (str : CString) :
    recordTexts (before ++ str) = recordTexts str := by
  induction before with
  | nil => rfl
  | cons c before ih =>
    rw [List.mem_cons, not_or] at h
    rw [← ih h.2, recordTexts, recordTexts, List.cons_append, List.splitOn_cons_eq_if_modifyHead,
      if_neg fun heq => h.1 (eq_of_beq heq).symm]
    obtain ⟨parts, hparts⟩ := splitOn_head (before ++ str)
    rw [hparts]
    exact quotedTexts_head _ _ _

theorem count_cons (ho : quote ∉ opening) (ht : quote ∉ text) :
    (opening ++ quote :: (text ++ quote :: rest)).count quote = rest.count quote + 2 := by
  simp [List.count_append, List.count_eq_zero_of_not_mem ho, List.count_eq_zero_of_not_mem ht]

theorem count_unclosed (ho : quote ∉ opening) (ht : quote ∉ text) :
    (opening ++ quote :: text).count quote = 1 := by
  simp [List.count_append, List.count_eq_zero_of_not_mem ho, List.count_eq_zero_of_not_mem ht]

theorem recordTexts_length (str : CString) :
    (recordTexts str).length = str.count quote / 2 := by
  induction str using record_induction with
  | unopened str h => rw [recordTexts_unopened h, List.count_eq_zero_of_not_mem h]; rfl
  | unclosed opening text ho ht => rw [recordTexts_unclosed ho ht, count_unclosed ho ht]; rfl
  | quoted opening text rest ho ht ih =>
    rw [recordTexts_cons ho ht, List.length_cons, ih rest le_rfl, count_cons ho ht]
    omega

theorem strchr_some {c : CChar} {s t : CString} (h : strchr c s = some t) :
    ∃ before after, s = before ++ t ∧ t = c :: after ∧ c ∉ before := by
  by_cases hmem : c ∈ s
  · obtain ⟨before, after, rfl, hb⟩ := List.eq_append_cons_of_mem hmem
    rw [strchr_first hb] at h
    cases h
    exact ⟨before, after, rfl, rfl, hb⟩
  · rw [strchr_none hmem] at h
    cases h

theorem deviceTexts_length (str : CString) :
    (deviceTexts str).length ≤ str.count quote / 2 := by
  induction str using record_induction with
  | unopened str h => rw [deviceTexts_none (nextText_unopened h)]; exact Nat.zero_le _
  | unclosed opening text ho ht =>
    rw [deviceTexts_none (nextText_unclosed ho ht)]
    exact Nat.zero_le _
  | quoted opening text rest ho ht ih =>
    rw [count_cons ho ht]
    by_cases hlong : maxPropertyStringSize < (opening ++ quote :: (text ++ quote :: rest)).length
    · rw [deviceTexts_none (nextText_long hlong)]
      exact Nat.zero_le _
    · have hnext := nextText_quoted ho ht (not_lt.mp hlong)
      cases hcomma : strchr comma rest with
      | none =>
        rw [deviceTexts_last hnext hcomma, List.length_singleton]
        omega
      | some next =>
        obtain ⟨before, after, rfl, -, -⟩ := strchr_some hcomma
        have hle := ih next (strchr_length hcomma)
        have hcount : next.count quote ≤ (before ++ next).count quote := by
          rw [List.count_append]
          omega
        rw [deviceTexts_cons hnext hcomma, List.length_cons]
        omega

theorem recordTexts_nil {str : CString} (heven : str.count quote % 2 = 0)
    (h : recordTexts str = []) : quote ∉ str := by
  have hlen := recordTexts_length str
  rw [h, List.length_nil] at hlen
  exact List.count_eq_zero.mp (by omega)

/-- A comma before the next quote. -/
theorem comma_before_quote {str : CString} (h : comma ∈ str.takeWhile (· ≠ quote)) :
    ∃ before after, str = before ++ comma :: after ∧ comma ∉ before ∧ quote ∉ before := by
  obtain ⟨before, after, hsplit, hb⟩ := List.eq_append_cons_of_mem h
  refine ⟨before, after ++ str.dropWhile (· ≠ quote), ?_, hb, fun hq => ?_⟩
  · rw [← List.cons_append, ← List.append_assoc, ← hsplit, List.takeWhile_append_dropWhile]
  · have hmem : quote ∈ str.takeWhile (· ≠ quote) := by
      rw [hsplit]
      exact List.mem_append_left _ hq
    simpa using List.mem_takeWhile_imp hmem

theorem quoted_length {n : Nat} (h : (opening ++ quote :: (text ++ quote :: rest)).length ≤ n) :
    rest.length ≤ n := by
  simp only [List.length_append, List.length_cons] at h
  omega

/-- The parser takes the quoted texts of the record when there is a comma between them. -/
theorem deviceTexts_quoted {str : CString} (hlen : str.length ≤ maxPropertyStringSize)
    (heven : str.count quote % 2 = 0) (hcomma : ∀ p ∈ (recordTexts str).dropLast, comma ∈ p.2) :
    deviceTexts str = (recordTexts str).map Prod.fst := by
  induction str using record_induction with
  | unopened str h =>
    rw [deviceTexts_none (nextText_unopened h), recordTexts_unopened h]
    rfl
  | unclosed opening text ho ht =>
    rw [deviceTexts_none (nextText_unclosed ho ht), recordTexts_unclosed ho ht]
    rfl
  | quoted opening text rest ho ht ih =>
    have hnext := nextText_quoted ho ht hlen
    rw [count_cons ho ht, Nat.add_mod_right] at heven
    rw [recordTexts_cons ho ht] at hcomma ⊢
    cases hrest : recordTexts rest with
    | nil =>
      have hnone := recordTexts_nil heven hrest
      cases hc : strchr comma rest with
      | none => exact deviceTexts_last hnext hc
      | some next =>
        obtain ⟨before, after, rfl, -, -⟩ := strchr_some hc
        have hq : quote ∉ next := fun h => hnone (List.mem_append_right _ h)
        rw [deviceTexts_cons hnext hc, deviceTexts_none (nextText_unopened hq)]
        rfl
    | cons p ps =>
      rw [hrest, List.dropLast_cons_cons, List.forall_mem_cons] at hcomma
      obtain ⟨before, after, rfl, hb, hq⟩ := comma_before_quote hcomma.1
      rw [recordTexts_skip hq] at hrest
      rw [List.count_append, List.count_eq_zero_of_not_mem hq, Nat.zero_add] at heven
      have hlater := ih (comma :: after) (by simp) ((by simp : (comma :: after).length ≤
        (before ++ comma :: after).length).trans (quoted_length hlen)) heven
        (by rw [hrest]; exact hcomma.2)
      rw [deviceTexts_cons hnext (strchr_first hb after), hlater, hrest]
      rfl

theorem deviceTexts_full {str : CString} (heven : str.count quote % 2 = 0)
    (h : (deviceTexts str).length = str.count quote / 2) :
    deviceTexts str = (recordTexts str).map Prod.fst ∧
      ∀ p ∈ (recordTexts str).dropLast, comma ∈ p.2 := by
  induction str using record_induction with
  | unopened str hq =>
    rw [deviceTexts_none (nextText_unopened hq), recordTexts_unopened hq]
    exact ⟨rfl, fun p hp => by cases hp⟩
  | unclosed opening text ho ht =>
    rw [count_unclosed ho ht] at heven
    cases heven
  | quoted opening text rest ho ht ih =>
    rw [count_cons ho ht, Nat.add_mod_right] at heven
    rw [count_cons ho ht] at h
    by_cases hlong : maxPropertyStringSize < (opening ++ quote :: (text ++ quote :: rest)).length
    · rw [deviceTexts_none (nextText_long hlong), List.length_nil] at h
      omega
    · have hnext := nextText_quoted ho ht (not_lt.mp hlong)
      rw [recordTexts_cons ho ht]
      cases hc : strchr comma rest with
      | none =>
        rw [deviceTexts_last hnext hc, List.length_singleton] at h
        have hnone : quote ∉ rest := List.count_eq_zero.mp (by omega)
        rw [deviceTexts_last hnext hc, recordTexts_unopened hnone]
        exact ⟨rfl, fun p hp => by cases hp⟩
      | some next =>
        obtain ⟨before, after, rfl, rfl, hb⟩ := strchr_some hc
        rw [deviceTexts_cons hnext hc, List.length_cons, List.count_append] at h
        rw [List.count_append] at heven
        have hle := deviceTexts_length (comma :: after)
        have hzero : before.count quote = 0 := by omega
        have hq : quote ∉ before := List.count_eq_zero.mp hzero
        obtain ⟨htexts, hcommas⟩ := ih (comma :: after) (by simp) (by omega) (by omega)
        rw [deviceTexts_cons hnext hc, htexts, recordTexts_skip hq]
        refine ⟨rfl, ?_⟩
        cases hrest : recordTexts (comma :: after) with
        | nil => exact fun p hp => by cases hp
        | cons p ps =>
          rw [List.dropLast_cons_cons, List.forall_mem_cons, ← hrest]
          refine ⟨?_, hcommas⟩
          show comma ∈ (before ++ comma :: after).takeWhile (· ≠ quote)
          rw [List.takeWhile_append_of_pos, List.takeWhile_cons_of_pos (by decide)]
          · exact List.mem_append_right _ List.mem_cons_self
          · intro c hmem
            simp only [decide_not, Bool.not_eq_true', decide_eq_false_iff_not]
            rintro rfl
            exact hq hmem

end Texts

section Entries
variable {F : Type} (parse : CString → DeviceEntry F → DeviceEntry F)

def countConfigured (entries : List (DeviceEntry F)) : Nat :=
  entries.countP DeviceEntry.configured

theorem countConfigured_cons (e : DeviceEntry F) (entries : List (DeviceEntry F)) :
    countConfigured (e :: entries) =
      countConfigured entries + if e.configured = true then 1 else 0 := by
  rw [countConfigured, List.countP_cons]
  rfl

theorem storeIn_count (entries : List (DeviceEntry F)) (text : CString) :
    countConfigured (storeIn parse entries text) ≤ countConfigured entries + 1 := by
  induction entries with
  | nil => exact Nat.zero_le _
  | cons e entries ih =>
    cases he : e.configured with
    | true =>
      rw [storeIn_configured parse he, countConfigured_cons, countConfigured_cons]
      omega
    | false =>
      rw [storeIn_free parse he, countConfigured_cons, countConfigured_cons]
      split <;> omega

theorem storeAll_count (texts : List CString) (entries : List (DeviceEntry F)) :
    countConfigured (storeAll parse texts entries) ≤ countConfigured entries + texts.length := by
  induction texts generalizing entries with
  | nil => exact le_rfl
  | cons t texts ih =>
    have hrest := ih (storeIn parse entries t)
    have hfirst := storeIn_count parse entries t
    show countConfigured (storeAll parse texts (storeIn parse entries t)) ≤ _
    rw [List.length_cons]
    omega

theorem storeAll_full {texts : List CString} {entries : List (DeviceEntry F)}
    (h : countConfigured entries + texts.length ≤
      countConfigured (storeAll parse texts entries)) : Fits parse texts entries := by
  induction entries generalizing texts with
  | nil =>
    rw [storeAll_nil] at h
    have hnil : texts = [] := List.eq_nil_of_length_eq_zero (by omega)
    subst hnil
    exact ⟨le_rfl, fun p hp => by cases hp⟩
  | cons e entries ih =>
    cases he : e.configured with
    | true =>
      rw [storeAll_configured parse he, countConfigured_cons, countConfigured_cons] at h
      exact (Fits.skip parse he).mpr (ih (by omega))
    | false =>
      cases texts with
      | nil => exact ⟨Nat.zero_le _, fun p hp => by simp at hp⟩
      | cons text texts =>
        rw [storeAll_free parse he, List.length_cons, countConfigured_cons] at h
        cases hparsed : (parse text e).configured with
        | true =>
          rw [storeAll_configured parse hparsed, countConfigured_cons, hparsed, he] at h
          simp only [Bool.false_eq_true, if_false, if_true] at h
          obtain ⟨hroom, hcomplete⟩ : Fits parse texts entries := ih (by omega)
          refine ⟨?_, fun p hp => ?_⟩
          · rw [freeEntries_free he]
            exact Nat.succ_le_succ hroom
          · rw [freeEntries_free he, List.zip_cons_cons, List.mem_cons] at hp
            rcases hp with rfl | hp
            · exact hparsed
            · exact hcomplete p hp
        | false =>
          have hle := storeAll_count parse texts (parse text e :: entries)
          rw [countConfigured_cons, hparsed] at hle
          simp only [he, Bool.false_eq_true, if_false] at h hle
          omega

/-- An entry before and after, for those that have become configured. -/
def newlyConfigured (before after : List (DeviceEntry F)) :
    List (DeviceEntry F × DeviceEntry F) :=
  (before.zip after).filter fun p => !p.1.configured && p.2.configured

/-- Every text is stored in an entry of its own, which is configured since. -/
def StoredOwn (texts : List CString) (before after : List (DeviceEntry F)) : Prop :=
  ∃ slots, List.Subperm slots (newlyConfigured before after) ∧
    List.Forall₂ (fun slot text => slot.2 = parse text slot.1) slots texts

def Grows : List (DeviceEntry F) → List (DeviceEntry F) → Prop :=
  List.Forall₂ fun e e' => e.configured = true → e'.configured = true

theorem newly_cons (e e' : DeviceEntry F) (before after : List (DeviceEntry F)) :
    newlyConfigured (e :: before) (e' :: after) =
      if e.configured = false ∧ e'.configured = true then
        (e, e') :: newlyConfigured before after
      else newlyConfigured before after := by
  simp [newlyConfigured, List.filter_cons]

theorem newly_self (entries : List (DeviceEntry F)) : newlyConfigured entries entries = [] := by
  induction entries with
  | nil => rfl
  | cons e entries ih =>
    rw [newly_cons, if_neg (by simp), ih]

theorem newly_count {before after : List (DeviceEntry F)} (h : Grows before after) :
    countConfigured after = countConfigured before + (newlyConfigured before after).length := by
  induction h with
  | nil => rfl
  | @cons e e' before after he _ ih =>
    rw [countConfigured_cons, countConfigured_cons, ih, newly_cons]
    cases hb : e.configured with
    | true =>
      simp only [he hb, Bool.true_eq_false, false_and, if_false, if_true]
      omega
    | false =>
      cases ha : e'.configured with
      | true =>
        simp only [Bool.false_eq_true, and_self, if_false, if_true, List.length_cons]
        omega
      | false => simp

theorem Grows.refl (entries : List (DeviceEntry F)) : Grows entries entries :=
  List.forall₂_same.mpr fun _ _ h => h

theorem Grows.trans {first second third : List (DeviceEntry F)} (h : Grows first second)
    (h' : Grows second third) : Grows first third := by
  induction h generalizing third with
  | nil =>
    cases h'
    exact .nil
  | cons he _ ih =>
    cases h' with
    | cons he' htail => exact .cons (fun hc => he' (he hc)) (ih htail)

theorem storeIn_grows (entries : List (DeviceEntry F)) (text : CString) :
    Grows entries (storeIn parse entries text) := by
  induction entries with
  | nil => exact .nil
  | cons e entries ih =>
    cases he : e.configured with
    | true =>
      rw [storeIn_configured parse he]
      exact .cons (fun hc => hc) ih
    | false =>
      rw [storeIn_free parse he]
      exact .cons (fun hc => by rw [he] at hc; cases hc) (Grows.refl entries)

theorem storeAll_grows (texts : List CString) (entries : List (DeviceEntry F)) :
    Grows entries (storeAll parse texts entries) := by
  induction texts generalizing entries with
  | nil => exact Grows.refl entries
  | cons t texts ih => exact (storeIn_grows parse entries t).trans (ih _)

/-- As many texts as entries that became configured. -/
theorem storedOwn_count {texts taken : List CString} {entries : List (DeviceEntry F)}
    (h : StoredOwn parse texts entries (storeAll parse taken entries)) :
    countConfigured entries + texts.length ≤ countConfigured (storeAll parse taken entries) := by
  obtain ⟨slots, hsub, hall⟩ := h
  rw [newly_count (storeAll_grows parse taken entries), ← hall.length_eq]
  exact Nat.add_le_add_left hsub.length_le _

theorem fillFree_own {texts : List CString} {entries : List (DeviceEntry F)}
    (h : Fits parse texts entries) :
    List.Forall₂ (fun slot text => slot.2 = parse text slot.1)
      (newlyConfigured entries (fillFree parse texts entries)) texts := by
  induction entries generalizing texts with
  | nil =>
    have hnil : texts = [] := List.eq_nil_of_length_eq_zero (Nat.le_zero.mp h.room)
    subst hnil
    exact .nil
  | cons e entries ih =>
    cases texts with
    | nil =>
      show List.Forall₂ _ (newlyConfigured (e :: entries) (e :: entries)) []
      rw [newly_self]
      exact .nil
    | cons text texts =>
      cases he : e.configured with
      | true =>
        rw [fillFree, if_pos he, newly_cons, if_neg (by simp [he])]
        exact ih ((Fits.skip parse he).mp h)
      | false =>
        obtain ⟨hcomplete, htail⟩ := h.tail parse he
        rw [fillFree, if_neg (by simp [he]), newly_cons, if_pos ⟨he, hcomplete⟩]
        exact .cons rfl (ih htail)

theorem storeAll_own {texts : List CString} {entries : List (DeviceEntry F)}
    (h : Fits parse texts entries) :
    StoredOwn parse texts entries (storeAll parse texts entries) := by
  rw [storeAll_fits parse h]
  exact ⟨_, List.Subperm.refl _, fillFree_own parse h⟩

end Entries

def CannotBeStored (str : CString) (cfg : BackendEntries) : Prop :=
  QuoteMissing str ∨ maxPropertyStringSize < str.length ∨
    ∃ bt, detectBackendType str = some bt ∧
      (freeEntries (cfg.entries bt).val).length < (recordTexts str).length

/-- Success says that every device has an entry, and a malformed record is an error. -/
structure RecordReported (str : CString) (cfg cfg' : BackendEntries) (rc : Option Errno) :
    Prop where
  stored : rc = none → ∃ bt, detectBackendType str = some bt ∧
    StoredOwn (parseText bt) ((recordTexts str).map Prod.fst) (cfg.entries bt).val
      (cfg'.entries bt).val
  reported : CannotBeStored str cfg → rc ≠ none

/-- A record of short length with its quotes and commas in place, each of whose devices completes
the free entry it comes to. -/
structure RecordFits (bt : BackendType) (str : CString) (cfg : BackendEntries) : Prop where
  length : str.length ≤ maxPropertyStringSize
  quoted : ¬ QuoteMissing str
  commas : ∀ p ∈ (recordTexts str).dropLast, comma ∈ p.2
  room : (recordTexts str).length ≤ (freeEntries (cfg.entries bt).val).length
  completes : ∀ p ∈ (freeEntries (cfg.entries bt).val).zip ((recordTexts str).map Prod.fst),
    bt.keys.Completes (textPairs p.2) p.1

theorem completes_fits {bt : BackendType} {entries : List (DeviceEntry bt.Field)}
    {texts : List CString} {p : DeviceEntry bt.Field × CString}
    (h : p ∈ (freeEntries entries).zip texts) :
    (parseText bt p.2 p.1).configured = true ↔ bt.keys.Completes (textPairs p.2) p.1 := by
  have hfree := (List.mem_filter.mp (List.of_mem_zip h).1).2
  rw [parseText_configured]
  simp only [Bool.not_eq_true'] at hfree
  simp [hfree]

theorem recordFits_fits {bt : BackendType} {str : CString} {cfg : BackendEntries}
    (h : RecordFits bt str cfg) :
    Fits (parseText bt) ((recordTexts str).map Prod.fst) (cfg.entries bt).val where
  room := by
    rw [List.length_map]
    exact h.room
  completes p hp := (completes_fits hp).mpr (h.completes p hp)

theorem not_quoteMissing {str : CString} (h : ¬ QuoteMissing str) : str.count quote % 2 = 0 := by
  rw [QuoteMissing, not_or] at h
  omega

/-- A record whose devices all got an entry has nothing wrong with it. -/
theorem recordFits_of_stored {bt : BackendType} {str : CString} {cfg : BackendEntries}
    (hlen : str.length ≤ maxPropertyStringSize) (hquoted : ¬ QuoteMissing str)
    (h : StoredOwn (parseText bt) ((recordTexts str).map Prod.fst) (cfg.entries bt).val
      (storeAll (parseText bt) (deviceTexts str) (cfg.entries bt).val)) :
    RecordFits bt str cfg := by
  have heven := not_quoteMissing hquoted
  have hown := storedOwn_count (parseText bt) h
  have hcount := storeAll_count (parseText bt) (deviceTexts str) (cfg.entries bt).val
  have htexts := recordTexts_length str
  have htaken := deviceTexts_length str
  rw [List.length_map] at hown
  obtain ⟨hall, hcommas⟩ := deviceTexts_full heven (by omega)
  have hfits := @storeAll_full _ (parseText bt) (deviceTexts str) (cfg.entries bt).val (by omega)
  rw [hall] at hfits
  refine ⟨hlen, hquoted, hcommas, ?_, fun p hp => (completes_fits hp).mp (hfits.completes p hp)⟩
  simpa using hfits.room

theorem parseRecord_reported_iff {str : CString} {cfg cfg' : BackendEntries} {rc : Option Errno}
    (h : parseOneRecordAndFillCfg (some str) (some cfg) = (rc, some cfg')) :
    RecordReported str cfg cfg' rc ↔
      ∀ bt, detectBackendType str = some bt → RecordFits bt str cfg := by
  rw [parseRecord_eq] at h
  cases hbt : detectBackendType str with
  | none =>
    rw [hbt] at h
    cases h
    constructor
    · intro _ bt hsome
      cases hsome
    · exact fun _ => ⟨fun hrc => (Option.some_ne_none _ hrc).elim, fun _ => Option.some_ne_none _⟩
  | some bt =>
    rw [hbt] at h
    cases h
    constructor
    · rintro ⟨hstored, hreported⟩ bt' hsome
      cases hsome
      obtain ⟨bt', hbt', hown⟩ := hstored rfl
      cases hbt.symm.trans hbt'
      rw [entries_storeTexts] at hown
      have hnot : ¬ CannotBeStored str cfg := fun hm => hreported hm rfl
      rw [CannotBeStored, not_or, not_or] at hnot
      exact recordFits_of_stored (not_lt.mp hnot.2.1) hnot.1 hown
    · intro hall
      have hfits := hall bt rfl
      refine ⟨fun _ => ⟨bt, hbt, ?_⟩, fun hm => ?_⟩
      · rw [entries_storeTexts, deviceTexts_quoted hfits.length (not_quoteMissing hfits.quoted)
          hfits.commas]
        exact storeAll_own _ (recordFits_fits hfits)
      · rcases hm with hq | hlong | ⟨bt', hbt', hroom⟩
        · exact absurd hq hfits.quoted
        · exact absurd hfits.length (not_le.mpr hlong)
        · cases hbt.symm.trans hbt'
          exact absurd hfits.room (not_le.mpr hroom)

def twoBridges : CString := cstr "vif=['bridge=b,mac=m','bridge=c,mac=n']"

theorem parseRecord_reported_two :
    ∃ cfg', parseOneRecordAndFillCfg (some twoBridges) (some .zero) = (none, some cfg') ∧
      RecordReported twoBridges .zero cfg' none := by
  have hvif : detectBackendType twoBridges = some .vif := by decide +kernel
  have hrun : parseOneRecordAndFillCfg (some twoBridges) (some .zero) =
      (none, some (storeTexts .vif (deviceTexts twoBridges) .zero)) := by
    rw [parseRecord_eq, hvif]
  refine ⟨_, hrun, (parseRecord_reported_iff hrun).mpr fun bt hbt => ?_⟩
  cases hvif.symm.trans hbt
  have hcomplete : ∀ p ∈ (freeEntries (BackendEntries.zero.entries .vif).val).zip
      ((recordTexts twoBridges).map Prod.fst),
      (parseText .vif p.2 p.1).configured = true := by decide +kernel
  constructor
  · decide +kernel
  · unfold QuoteMissing
    decide +kernel
  · decide +kernel
  · decide +kernel
  · exact fun p hp => (completes_fits hp).mp (hcomplete p hp)

/-- A record that breaks off in its first device succeeds. -/
theorem unclosed_quote_succeeds :
    ¬ ∀ (str : CString) (cfg cfg' : BackendEntries) (rc : Option Errno),
      parseOneRecordAndFillCfg (some str) (some cfg) = (rc, some cfg') →
      RecordReported str cfg cfg' rc := by
  intro hall
  have hvif : detectBackendType (cstr "vif=['bridge=b,mac=m") = some .vif := by decide +kernel
  have hreport := hall (cstr "vif=['bridge=b,mac=m") .zero _ none (by rw [parseRecord_eq, hvif])
  exact hreport.reported (Or.inl (Or.inr (by decide +kernel))) rfl

end Xenlib
