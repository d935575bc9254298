import Mathlib.Data.List.Basic

/-!
Sequences of assignments. The last one to a place decides what is read from it, and a flag that a
check may raise after every step is up when the check has passed at some point.
-/

set_option autoImplicit false

namespace Assignments

variable {τ ν : Type} [DecidableEq τ]

def last (t : τ) : List (τ × ν) → Option ν
  | [] => none
  | w :: ws => (last t ws).or (if w.1 = t then some w.2 else none)

@[simp] theorem last_nil (t : τ) : last t ([] : List (τ × ν)) = none := rfl

theorem last_append (t : τ) (first second : List (τ × ν)) :
    last t (first ++ second) = (last t second).or (last t first) := by
  induction first with
  | nil => simp
  | cons w ws ih => rw [List.cons_append, last, last, ih, Option.or_assoc]

theorem mem_of_last {t : τ} {v : ν} {ws : List (τ × ν)} (h : last t ws = some v) :
    (t, v) ∈ ws := by
  induction ws with
  | nil => cases h
  | cons w ws ih =>
    rw [last, Option.or_eq_some_iff] at h
    rcases h with h | ⟨-, h⟩
    · exact List.mem_cons_of_mem _ (ih h)
    · split at h
      · rename_i hw
        cases h
        exact hw ▸ List.mem_cons_self
      · cases h

theorem last_eq_none_iff {t : τ} {ws : List (τ × ν)} :
    last t ws = none ↔ t ∉ ws.map Prod.fst := by
  induction ws with
  | nil => simp
  | cons w ws ih =>
    rw [last, Option.or_eq_none_iff, ih, List.map_cons, List.mem_cons]
    by_cases hw : w.1 = t
    · simp [hw]
    · simp [hw, Ne.symm hw]

section Runs
variable {σ β α : Type}

theorem read_foldl {t : τ} {stored : ν → β} (read : σ → β) (step : σ → α → σ)
    (assigns : α → List (τ × ν))
    (h : ∀ s a, read (step s a) = ((last t (assigns a)).map stored).getD (read s))
    (as : List α) (s : σ) :
    read (as.foldl step s) = ((last t (as.flatMap assigns)).map stored).getD (read s) := by
  induction as generalizing s with
  | nil => rfl
  | cons a as ih =>
    rw [List.foldl_cons, ih, h, List.flatMap_cons, last_append]
    cases last t (as.flatMap assigns) with
    | some v => rfl
    | none => rfl

theorem latched_foldl (step : σ → α → σ) (flag check : σ → Prop)
    (h : ∀ s a, flag (step s a) ↔ flag s ∨ check (step s a)) (as : List α) (s : σ) :
    flag (as.foldl step s) ↔
      flag s ∨ ∃ done, done ≠ [] ∧ done <+: as ∧ check (done.foldl step s) := by
  induction as generalizing s with
  | nil =>
    constructor
    · exact Or.inl
    · rintro (h | ⟨done, hne, hpre, -⟩)
      · exact h
      · exact absurd (List.prefix_nil.mp hpre) hne
  | cons a as ih =>
    rw [List.foldl_cons, ih, h]
    constructor
    · rintro ((hs | hc) | ⟨done, -, hpre, hc⟩)
      · exact Or.inl hs
      · exact Or.inr ⟨[a], List.cons_ne_nil _ _, List.prefix_append [a] as, hc⟩
      · exact Or.inr ⟨a :: done, List.cons_ne_nil _ _, (List.prefix_cons_inj a).mpr hpre, hc⟩
    · rintro (hs | ⟨done, hne, hpre, hc⟩)
      · exact Or.inl (Or.inl hs)
      · obtain ⟨b, done, rfl⟩ := List.exists_cons_of_ne_nil hne
        obtain ⟨rfl, hrest⟩ := List.cons_prefix_cons.mp hpre
        by_cases hd : done = []
        · exact Or.inl (Or.inr (by simpa [hd] using hc))
        · exact Or.inr ⟨done, hd, hrest, hc⟩

end Runs

end Assignments
