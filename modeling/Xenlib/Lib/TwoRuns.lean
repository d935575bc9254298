import Xenlib.Lib.Wp

/-!
Two programs run side by side from related states. What is shown of them together is what one
of them may not depend on.
-/

set_option autoImplicit false

namespace Wp

variable {σ τ ε α α' β β' : Type} {R : σ → τ → Prop}

/-- From related states both programs come to related results in related states, or both stop
with one fault. -/
def Agree (R : σ → τ → Prop) (Q : α → α' → Prop) (x : Prog σ ε α) (y : Prog τ ε α') : Prop :=
  ∀ s t, R s t →
    match x s, y t with
    | .ok (a, s'), .ok (b, t') => Q a b ∧ R s' t'
    | .error e, .error e' => e = e'
    | _, _ => False

theorem Agree.pure {a : α} {b : α'} {Q : α → α' → Prop} (h : Q a b) :
    Agree R Q (pure a : Prog σ ε α) (pure b : Prog τ ε α') :=
  fun _ _ hR => ⟨h, hR⟩

theorem Agree.throw {Q : α → α' → Prop} (e : ε) :
    Agree R Q (throw e : Prog σ ε α) (throw e : Prog τ ε α') :=
  fun _ _ _ => rfl

theorem Agree.get : Agree R R (get : Prog σ ε σ) (get : Prog τ ε τ) := fun _ _ hR => ⟨hR, hR⟩

theorem Agree.modify {f : σ → σ} {k : τ → τ} (h : ∀ s t, R s t → R (f s) (k t)) :
    Agree R Eq (modify f : Prog σ ε PUnit) (modify k : Prog τ ε PUnit) :=
  fun s t hR => ⟨rfl, h s t hR⟩

theorem Agree.set {s : σ} {t : τ} (h : R s t) :
    Agree R Eq (set s : Prog σ ε PUnit) (set t : Prog τ ε PUnit) :=
  fun _ _ _ => ⟨rfl, h⟩

theorem Agree.lift (x : Except ε α) : Agree R Eq (lift x : Prog σ ε α) (lift x : Prog τ ε α) := by
  intro s t hR
  cases x with
  | error e => rfl
  | ok a => exact ⟨rfl, hR⟩

theorem Agree.mono {x : Prog σ ε α} {y : Prog τ ε α'} {Q Q' : α → α' → Prop} (h : Agree R Q x y)
    (hQ : ∀ a b, Q a b → Q' a b) : Agree R Q' x y := by
  intro s t hR
  have hrun := h s t hR
  cases hx : x s with
  | error e => cases hy : y t <;> simp_all
  | ok r => cases hy : y t <;> simp_all

theorem Agree.bind {x : Prog σ ε α} {y : Prog τ ε α'} {f : α → Prog σ ε β} {k : α' → Prog τ ε β'}
    {Q : α → α' → Prop} {Q' : β → β' → Prop} (hxy : Agree R Q x y)
    (hfk : ∀ a b, Q a b → Agree R Q' (f a) (k b)) : Agree R Q' (x >>= f) (y >>= k) := by
  intro s t hR
  have hrun := hxy s t hR
  simp only [Bind.bind, StateT.bind, Except.bind]
  cases hx : x s with
  | error e => cases hy : y t <;> simp_all
  | ok r =>
    cases hy : y t with
    | error e => simp_all
    | ok r' =>
      simp only [hx, hy] at hrun
      exact hfk r.1 r'.1 hrun.1 r.2 r'.2 hrun.2

theorem Agree.bind_eq {x : Prog σ ε α} {y : Prog τ ε α} {f : α → Prog σ ε β} {k : α → Prog τ ε β'}
    {Q : β → β' → Prop} (hxy : Agree R Eq x y) (hfk : ∀ a, Agree R Q (f a) (k a)) :
    Agree R Q (x >>= f) (y >>= k) :=
  hxy.bind fun a _ hab => hab ▸ hfk a

theorem Agree.ite {c : Prop} [Decidable c] {x x' : Prog σ ε α} {y y' : Prog τ ε α'}
    {Q : α → α' → Prop} (hpos : c → Agree R Q x y) (hneg : ¬ c → Agree R Q x' y') :
    Agree R Q (if c then x else x') (if c then y else y') := by
  by_cases h : c
  · rw [if_pos h, if_pos h]; exact hpos h
  · rw [if_neg h, if_neg h]; exact hneg h

/-- When the first run comes to its end, so does the second. -/
theorem Agree.ok {x : Prog σ ε α} {y : Prog τ ε α'} {Q : α → α' → Prop} (h : Agree R Q x y)
    {s s' : σ} {t : τ} {a : α} (hR : R s t) (hx : x s = .ok (a, s')) :
    ∃ b t', y t = .ok (b, t') ∧ Q a b ∧ R s' t' := by
  have hrun := h s t hR
  cases hy : y t with
  | error e => simp [hx, hy] at hrun
  | ok r =>
    simp only [hx, hy] at hrun
    exact ⟨r.1, r.2, rfl, hrun⟩

theorem Agree.wp {x : Prog σ ε α} {y : Prog τ ε α'} {Q : α → α' → Prop} (h : Agree R Q x y)
    {s : σ} {t : τ} (hR : R s t) :
    wp x (fun a s' => ∃ b t', y t = .ok (b, t') ∧ Q a b ∧ R s' t') (fun e => y t = .error e) s := by
  have hrun := h s t hR
  unfold Wp.wp
  cases hx : x s with
  | error e => cases hy : y t <;> simp_all
  | ok r => exact h.ok hR hx

end Wp
