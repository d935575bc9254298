import Xenlib.Lib.Forest

/-!
Pruning a forest: drop the nodes of some labels with all that is below them, and relabel the
others.
-/

set_option autoImplicit false

namespace Keyed

section Prune
variable {κ α : Type} [DecidableEq κ] (drop : α → Bool) (g : α → α)

def Forest.prune : Forest κ α → Forest κ α
  | .nil => .nil
  | .cons k a c n => if drop a then n.prune else .cons k (g a) c.prune n.prune

def Tree.prune (t : Tree κ α) : Tree κ α := ⟨g t.label, t.children.prune drop g⟩

/-- No node on the way from the root to `p` is dropped; the root itself does not count. -/
def Tree.Kept (t : Tree κ α) (p : List κ) : Prop :=
  ∀ q n, q ≠ [] → q <+: p → t.lookup q = some n → drop n.label = false

variable {drop g}

omit [DecidableEq κ] in
theorem Forest.mem_keys_prune {k : κ} {f : Forest κ α} (h : k ∈ (f.prune drop g).keys) :
    k ∈ f.keys := by
  induction f with
  | nil => cases h
  | cons j a c n _ ihn =>
    rw [prune] at h
    split at h
    · exact List.mem_cons_of_mem _ (ihn h)
    · rcases List.mem_cons.mp h with rfl | h
      · exact List.mem_cons_self
      · exact List.mem_cons_of_mem _ (ihn h)

omit [DecidableEq κ] in
theorem Forest.distinct_prune {f : Forest κ α} (h : f.Distinct) : (f.prune drop g).Distinct := by
  induction f with
  | nil => trivial
  | cons j a c n ihc ihn =>
    obtain ⟨hj, hc, hn⟩ := h
    rw [prune]
    split
    · exact ihn hn
    · exact ⟨fun hmem => hj (Forest.mem_keys_prune hmem), ihc hc, ihn hn⟩

omit [DecidableEq κ] in
theorem Forest.length_keys_prune (f : Forest κ α) :
    (f.prune drop g).keys.length ≤ f.keys.length := by
  induction f with
  | nil => exact Nat.le_refl _
  | cons j a c n _ ihn =>
    rw [prune]
    split
    · exact Nat.le_succ_of_le ihn
    · exact Nat.succ_le_succ ihn

omit [DecidableEq κ] in
theorem Forest.prune_eq_self_iff {f : Forest κ α} :
    f.prune drop g = f ↔ f.All fun _ a => drop a = false ∧ g a = a := by
  induction f with
  | nil => exact ⟨fun _ => trivial, fun _ => rfl⟩
  | cons j a c n ihc ihn =>
    rw [prune]
    cases hd : drop a with
    | true =>
      constructor
      · intro h
        have hlen := @length_keys_prune _ _ drop g n
        rw [if_pos rfl] at h
        rw [h] at hlen
        exact absurd hlen (Nat.not_succ_le_self _)
      · rintro ⟨⟨hkept, -⟩, -⟩
        rw [hd] at hkept
        cases hkept
    | false =>
      rw [if_neg Bool.false_ne_true, Forest.cons.injEq, ihc, ihn]
      constructor
      · rintro ⟨-, ha, hc, hn⟩
        exact ⟨⟨hd, ha⟩, hc, hn⟩
      · rintro ⟨⟨-, ha⟩, hc, hn⟩
        exact ⟨rfl, ha, hc, hn⟩

theorem Forest.find?_prune {f : Forest κ α} (hd : f.Distinct) (k : κ) :
    (f.prune drop g).find? k =
      (f.find? k).bind fun t => if drop t.label then none else some (t.prune drop g) := by
  induction f with
  | nil => rfl
  | cons j a c n _ ihn =>
    obtain ⟨hj, -, hn⟩ := hd
    rw [prune]
    by_cases hjk : j = k
    · subst hjk
      by_cases ha : drop a = true
      · have hnone : (n.prune drop g).find? j = none :=
          Forest.find?_eq_none.mpr fun h => hj (Forest.mem_keys_prune h)
        simp [ha, hnone, find?]
      · simp [ha, find?, Tree.prune]
    · by_cases ha : drop a = true
      · simp [ha, find?, hjk, ihn hn]
      · simp [ha, find?, hjk, ihn hn]

theorem Forest.keys_prune {f : Forest κ α} (hd : f.Distinct) :
    (f.prune drop g).keys = f.keys.filter fun k => ((f.prune drop g).find? k).isSome := by
  induction f with
  | nil => rfl
  | cons j a c n _ ihn =>
    obtain ⟨hj, -, hn⟩ := hd
    rw [prune]
    by_cases ha : drop a = true
    · have hnone : (n.prune drop g).find? j = none :=
        Forest.find?_eq_none.mpr fun h => hj (Forest.mem_keys_prune h)
      simp only [ha, if_true, keys, List.filter_cons, hnone, Option.isSome_none,
        Bool.false_eq_true, if_false]
      exact ihn hn
    · have hrest : ∀ k ∈ n.keys, ((Forest.cons j (g a) (c.prune drop g)
          (n.prune drop g)).find? k).isSome = ((n.prune drop g).find? k).isSome := by
        intro k hk
        have hne : j ≠ k := fun h => hj (h ▸ hk)
        simp [find?, hne]
      simp only [ha, Bool.false_eq_true, if_false, keys, List.filter_cons]
      rw [if_pos (by simp [find?]), List.filter_congr hrest, ← ihn hn]

theorem Tree.kept_nil (t : Tree κ α) : t.Kept drop [] := by
  intro q n hq hp
  exact absurd (List.prefix_nil.mp hp) hq

theorem Tree.kept_cons {t s : Tree κ α} {k : κ} {ks : List κ}
    (hs : t.children.find? k = some s) :
    t.Kept drop (k :: ks) ↔ drop s.label = false ∧ s.Kept drop ks := by
  constructor
  · intro h
    refine ⟨h [k] s (by simp) (by simp) (by simp [lookup_cons, hs]), fun q n hq hp hn => ?_⟩
    refine h (k :: q) n (by simp) (List.cons_prefix_cons.mpr ⟨rfl, hp⟩) ?_
    rw [lookup_cons, hs]
    exact hn
  · rintro ⟨hlabel, hkept⟩ q n hq hp hn
    cases q with
    | nil => exact absurd rfl hq
    | cons j q =>
      obtain ⟨rfl, hpre⟩ := List.cons_prefix_cons.mp hp
      rw [lookup_cons, hs] at hn
      cases q with
      | nil =>
        cases hn
        exact hlabel
      | cons i q => exact hkept (i :: q) n (by simp) hpre hn

theorem Tree.lookup_prune (p : List κ) {t s' : Tree κ α} (hd : t.children.Distinct) :
    (t.prune drop g).lookup p = some s' ↔
      ∃ s, t.lookup p = some s ∧ s' = s.prune drop g ∧ t.Kept drop p := by
  induction p generalizing t with
  | nil =>
    constructor
    · intro h
      cases h
      exact ⟨t, rfl, rfl, t.kept_nil⟩
    · rintro ⟨s, hs, rfl, -⟩
      cases hs
      rfl
  | cons k ks ih =>
    rw [lookup_cons, lookup_cons]
    have hfind : (t.prune drop g).children.find? k = _ := Forest.find?_prune hd k
    rw [hfind]
    cases hs : t.children.find? k with
    | none => simp
    | some s =>
      rw [kept_cons hs]
      by_cases hdrop : drop s.label = true
      · simp [hdrop]
      · have hfalse : drop s.label = false := by simpa using hdrop
        simp only [Option.bind_some, hfalse, Bool.false_eq_true, if_false, ih (hd.find? hs),
          true_and]

end Prune

end Keyed
