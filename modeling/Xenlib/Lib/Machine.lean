import Mathlib.Tactic.Common

/-!
Runs of a machine with labelled steps. A step that is not enabled, or that stops the
machine, has no result.
-/

set_option autoImplicit false

namespace Machine

variable {S A : Type} (step : S → A → Option S)

def run : S → List A → Option S
  | s, [] => some s
  | s, a :: as =>
    match step s a with
    | none => none
    | some s' => run s' as

/-- Every step of the run meets the condition `C` on the state before it. -/
def Along (C : S → A → Prop) : S → List A → Prop
  | _, [] => True
  | s, a :: as => C s a ∧ ∀ s', step s a = some s' → Along C s' as

instance Along.decidable (C : S → A → Prop) [∀ s a, Decidable (C s a)] :
    ∀ (s : S) (as : List A), Decidable (Along step C s as)
  | _, [] => isTrue trivial
  | s, a :: as =>
    match h : step s a with
    | none => decidable_of_iff (C s a)
        ⟨fun hc => ⟨hc, fun s' hs' => by rw [h] at hs'; cases hs'⟩, And.left⟩
    | some s' =>
      have := Along.decidable C s' as
      decidable_of_iff (C s a ∧ Along step C s' as)
        ⟨fun hc => ⟨hc.1, fun s'' hs'' => by rw [h] at hs''; cases hs''; exact hc.2⟩,
          fun hc => ⟨hc.1, hc.2 s' h⟩⟩

variable {step}

theorem run_cons {s s' : S} {a : A} {as : List A} (h : run step s (a :: as) = some s') :
    ∃ s₁, step s a = some s₁ ∧ run step s₁ as = some s' := by
  unfold run at h
  cases hs : step s a with
  | none => simp [hs] at h
  | some s₁ => simp only [hs] at h; exact ⟨s₁, rfl, h⟩

/-- What every step keeps, the run keeps. -/
theorem run_invariant {I : S → Prop} {C : S → A → Prop}
    (hstep : ∀ s a s', I s → C s a → step s a = some s' → I s') {s s' : S} {as : List A}
    (hs : I s) (hc : Along step C s as) (h : run step s as = some s') : I s' := by
  induction as generalizing s with
  | nil => cases h; exact hs
  | cons a as ih =>
    obtain ⟨s₁, h₁, hrun⟩ := run_cons h
    exact ih (hstep s a s₁ hs hc.1 h₁) (hc.2 s₁ h₁) hrun

theorem along_true (s : S) (as : List A) : Along step (fun _ _ => True) s as := by
  induction as generalizing s with
  | nil => trivial
  | cons a as ih => exact ⟨trivial, fun s' _ => ih s'⟩

theorem Along.mono {C D : S → A → Prop} (h : ∀ s a, C s a → D s a) {s : S} {as : List A}
    (hc : Along step C s as) : Along step D s as := by
  induction as generalizing s with
  | nil => trivial
  | cons a as ih => exact ⟨h s a hc.1, fun s' hs' => ih (hc.2 s' hs')⟩

theorem along_labels {C : A → Prop} {as : List A} (h : ∀ a ∈ as, C a) (s : S) :
    Along step (fun _ a => C a) s as := by
  induction as generalizing s with
  | nil => trivial
  | cons a as ih =>
    exact ⟨h a List.mem_cons_self, fun s' _ => ih (fun b hb => h b (List.mem_cons_of_mem _ hb)) s'⟩

theorem along_append {C : S → A → Prop} {s s' : S} {as bs : List A}
    (hc : Along step C s (as ++ bs)) (h : run step s as = some s') :
    Along step C s as ∧ Along step C s' bs := by
  induction as generalizing s with
  | nil => cases h; exact ⟨trivial, hc⟩
  | cons a as ih =>
    obtain ⟨s₁, h₁, hrun⟩ := run_cons h
    obtain ⟨has, hbs⟩ := ih (hc.2 s₁ h₁) hrun
    refine ⟨⟨hc.1, fun s₂ h₂ => ?_⟩, hbs⟩
    cases h₁.symm.trans h₂
    exact has

theorem run_keeps {I : S → Prop} (hstep : ∀ s a s', I s → step s a = some s' → I s') {s s' : S}
    {as : List A} (hs : I s) (h : run step s as = some s') : I s' :=
  run_invariant (fun s a s' hi _ => hstep s a s' hi) hs (along_true s as) h

theorem run_total {I : S → Prop} {C : S → A → Prop}
    (hstep : ∀ s a, I s → C s a → ∃ s', step s a = some s' ∧ I s') {s : S} {as : List A}
    (hs : I s) (hc : Along step C s as) : ∃ s', run step s as = some s' ∧ I s' := by
  induction as generalizing s with
  | nil => exact ⟨s, rfl, hs⟩
  | cons a as ih =>
    obtain ⟨s₁, h₁, hs₁⟩ := hstep s a hs hc.1
    obtain ⟨s', hrun, hs'⟩ := ih hs₁ (hc.2 s₁ h₁)
    refine ⟨s', ?_, hs'⟩
    simp only [run, h₁, hrun]

end Machine
