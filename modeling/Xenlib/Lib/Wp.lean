import Mathlib.Tactic.Common

/-!
Weakest preconditions for programs that pass a state and may stop with a fault.
A program is a `StateT σ (Except ε)` computation; `wp` states what holds of its
result and final state, and what holds of the fault when it stops with one.
-/

set_option autoImplicit false

namespace Wp

abbrev Prog (σ ε α : Type) := StateT σ (Except ε) α

variable {σ ε α β : Type}

def wp (x : Prog σ ε α) (Q : α → σ → Prop) (E : ε → Prop) (s : σ) : Prop :=
  match x s with
  | .ok (a, s') => Q a s'
  | .error e => E e

theorem wp_mono {x : Prog σ ε α} {Q R : α → σ → Prop} {E F : ε → Prop} {s : σ}
    (h : wp x Q E s) (hQ : ∀ a s', Q a s' → R a s') (hE : ∀ e, E e → F e) :
    wp x R F s := by
  unfold wp at *
  cases hx : x s with
  | error e => simp only [hx] at h ⊢; exact hE e h
  | ok r => simp only [hx] at h ⊢; exact hQ _ _ h

theorem wp_conseq {x : Prog σ ε α} {Q R : α → σ → Prop} {E : ε → Prop} {s : σ}
    (h : wp x Q E s) (hQ : ∀ a s', Q a s' → R a s') : wp x R E s :=
  wp_mono h hQ (fun _ he => he)

/-- What a program gives is what it gives in a run. -/
theorem wp_ran {x : Prog σ ε α} {Q : α → σ → Prop} {E : ε → Prop} {s : σ} (h : wp x Q E s) :
    wp x (fun a s' => x s = .ok (a, s') ∧ Q a s') E s := by
  unfold wp at *
  cases hx : x s with
  | error e => simp only [hx] at h ⊢; exact h
  | ok r => simp only [hx] at h ⊢; exact ⟨trivial, h⟩

theorem wp_and {x : Prog σ ε α} {Q R : α → σ → Prop} {E F : ε → Prop} {s : σ}
    (h : wp x Q E s) (h' : wp x R F s) :
    wp x (fun a s' => Q a s' ∧ R a s') (fun e => E e ∧ F e) s := by
  unfold wp at *
  cases hx : x s with
  | error e => simp only [hx] at h h' ⊢; exact ⟨h, h'⟩
  | ok r => simp only [hx] at h h' ⊢; exact ⟨h, h'⟩

@[simp] theorem wp_pure (a : α) (Q : α → σ → Prop) (E : ε → Prop) (s : σ) :
    wp (pure a : Prog σ ε α) Q E s = Q a s := rfl

@[simp] theorem wp_throw (e : ε) (Q : α → σ → Prop) (E : ε → Prop) (s : σ) :
    wp (throw e : Prog σ ε α) Q E s = E e := rfl

@[simp] theorem wp_get (Q : σ → σ → Prop) (E : ε → Prop) (s : σ) :
    wp (get : Prog σ ε σ) Q E s = Q s s := rfl

@[simp] theorem wp_modify (f : σ → σ) (Q : PUnit → σ → Prop) (E : ε → Prop) (s : σ) :
    wp (modify f : Prog σ ε PUnit) Q E s = Q PUnit.unit (f s) := rfl

@[simp] theorem wp_bind (x : Prog σ ε α) (f : α → Prog σ ε β) (Q : β → σ → Prop)
    (E : ε → Prop) (s : σ) :
    wp (x >>= f) Q E s = wp x (fun a s' => wp (f a) Q E s') E s := by
  unfold wp
  simp only [bind, StateT.bind, Except.bind]
  cases x s <;> rfl

theorem bind_ok_iff {x : Prog σ ε α} {f : α → Prog σ ε β} {s s' : σ} {b : β} :
    (x >>= f) s = .ok (b, s') ↔ ∃ a s₁, x s = .ok (a, s₁) ∧ f a s₁ = .ok (b, s') := by
  simp only [bind, StateT.bind, Except.bind]
  cases x s with
  | error e => simp
  | ok r =>
    obtain ⟨a, s₁⟩ := r
    simp

def lift (x : Except ε α) : Prog σ ε α := fun s => x.map fun a => (a, s)

theorem wp_lift {x : Except ε α} {Q : α → σ → Prop} {E : ε → Prop} {s : σ}
    (hok : ∀ a, x = .ok a → Q a s) (herr : ∀ e, x = .error e → E e) :
    wp (lift x) Q E s := by
  cases x with
  | ok a => exact hok a rfl
  | error e => exact herr e rfl

@[simp] theorem wp_lift_ok (a : α) (Q : α → σ → Prop) (E : ε → Prop) (s : σ) :
    wp (lift (.ok a) : Prog σ ε α) Q E s = Q a s := rfl

theorem wp_ite {c : Prop} [Decidable c] {x y : Prog σ ε α} {Q : α → σ → Prop}
    {E : ε → Prop} {s : σ} (ht : c → wp x Q E s) (hf : ¬ c → wp y Q E s) :
    wp (if c then x else y) Q E s := by
  by_cases h : c
  · rw [if_pos h]; exact ht h
  · rw [if_neg h]; exact hf h

theorem wp_ok {x : Prog σ ε α} {Q : α → σ → Prop} {E : ε → Prop} {s s' : σ} {a : α}
    (h : wp x Q E s) (hx : x s = .ok (a, s')) : Q a s' := by
  simpa only [wp, hx] using h

theorem wp_error {x : Prog σ ε α} {Q : α → σ → Prop} {E : ε → Prop} {s : σ} {e : ε}
    (h : wp x Q E s) (hx : x s = .error e) : E e := by
  simpa only [wp, hx] using h

theorem wp_total {x : Prog σ ε α} {Q : α → σ → Prop} {s : σ}
    (h : wp x Q (fun _ => False) s) : ∃ a s', x s = .ok (a, s') ∧ Q a s' := by
  cases hx : x s with
  | error e => exact (wp_error h hx).elim
  | ok r => exact ⟨r.1, r.2, rfl, wp_ok h hx⟩

theorem wp_trivial (x : Prog σ ε α) (s : σ) : wp x (fun _ _ => True) (fun _ => True) s := by
  unfold wp
  split <;> trivial

theorem wp_of_ok {x : Prog σ ε α} {Q : α → σ → Prop} {E : ε → Prop} {s s' : σ} {a : α}
    (hx : x s = .ok (a, s')) (h : Q a s') : wp x Q E s := by
  simpa only [wp, hx] using h

section Invariant
variable {I : σ → Prop} {E : ε → Prop}

/-- From a state with `I` the program ends in one with `I` and gives a result with `Q`, or it
stops with a fault that `E` allows. -/
def Holds (I : σ → Prop) (E : ε → Prop) (x : Prog σ ε α) (Q : α → Prop) : Prop :=
  ∀ s, I s → wp x (fun a s' => Q a ∧ I s') E s

theorem Holds.mono {x : Prog σ ε α} {Q R : α → Prop} (h : Holds I E x Q) (hQ : ∀ a, Q a → R a) :
    Holds I E x R :=
  fun s hs => wp_conseq (h s hs) fun a _ ha => ⟨hQ a ha.1, ha.2⟩

theorem Holds.pure {a : α} {Q : α → Prop} (h : Q a) : Holds I E (pure a : Prog σ ε α) Q :=
  fun _ hs => ⟨h, hs⟩

theorem Holds.throw {e : ε} {Q : α → Prop} (h : E e) : Holds I E (throw e : Prog σ ε α) Q :=
  fun _ _ => h

theorem Holds.get : Holds I E (get : Prog σ ε σ) I := fun _ hs => ⟨hs, hs⟩

theorem Holds.modify {f : σ → σ} (h : ∀ s, I s → I (f s)) :
    Holds I E (modify f : Prog σ ε PUnit) (fun _ => True) :=
  fun s hs => ⟨trivial, h s hs⟩

theorem Holds.bind {x : Prog σ ε α} {f : α → Prog σ ε β} {Q : α → Prop} {R : β → Prop}
    (hx : Holds I E x Q) (hf : ∀ a, Q a → Holds I E (f a) R) : Holds I E (x >>= f) R := by
  intro s hs
  rw [wp_bind]
  exact wp_conseq (hx s hs) fun a s' ha => hf a ha.1 s' ha.2

theorem Holds.ite {c : Prop} [Decidable c] {x y : Prog σ ε α} {Q : α → Prop}
    (hx : c → Holds I E x Q) (hy : ¬ c → Holds I E y Q) : Holds I E (if c then x else y) Q :=
  fun s hs => wp_ite (fun h => hx h s hs) (fun h => hy h s hs)

theorem Holds.lift {x : Except ε α} {Q : α → Prop} (hok : ∀ a, x = .ok a → Q a)
    (herr : ∀ e, x = .error e → E e) : Holds I E (lift x) Q :=
  fun _ hs => wp_lift (fun a ha => ⟨hok a ha, hs⟩) herr

end Invariant

end Wp
