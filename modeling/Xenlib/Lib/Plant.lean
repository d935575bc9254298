import Xenlib.Lib.Forest

/-!
Two writes to a tree. A new node takes from its parent what every label on the way has in
common, so that the order of the writes does not show in the labels.
-/

set_option autoImplicit false

namespace Keyed

variable {κ α β : Type} [DecidableEq κ]

def Tree.node (t : Tree κ α) (p : List κ) : Option α := (t.lookup p).map Tree.label

theorem Tree.node_eq_view (t : Tree κ α) (p : List κ) : t.node p = (t.view p).map Prod.fst := by
  simp [node, view, Function.comp_def]

theorem Tree.node_plant {fresh upd : α → α} (hf : ∀ a, fresh (fresh a) = fresh a)
    (p q : List κ) (t : Tree κ α) :
    (t.plant fresh upd p).node q =
      match t.node q with
      | some a => some (if q = p then upd a else a)
      | none =>
        if q <+: p then some (if q = p then upd (fresh (t.anchor p)) else fresh (t.anchor p))
        else none := by
  simp only [node_eq_view, view_plant fresh upd hf]
  cases t.view q with
  | none =>
    simp only [Option.map_none]
    split <;> rfl
  | some e => rfl

theorem Tree.node_remove {p : List κ} (hp : p ≠ []) (q : List κ) {t : Tree κ α}
    (ht : t.children.Distinct) :
    (t.remove p).node q = if p <+: q then none else t.node q := by
  have hsplit : p = p.dropLast ++ [p.getLast hp] := (List.dropLast_concat_getLast hp).symm
  rw [node_eq_view, node_eq_view, hsplit, view_remove _ _ _ ht]
  split
  · rfl
  · cases t.view q <;> rfl

theorem Tree.anchor_below {q p : List κ} {t : Tree κ α} (hq : t.node q = none) (h : q <+: p) :
    t.anchor p = t.anchor q := by
  induction q generalizing p t with
  | nil => simp [node] at hq
  | cons k ks ih =>
    obtain ⟨rest, rfl⟩ := h
    cases hk : t.children.find? k with
    | none => simp [anchor, hk]
    | some s =>
      have hs : s.node ks = none := by simpa [node, lookup_cons, hk] using hq
      simpa [anchor, hk] using ih hs (List.prefix_append ks rest)

theorem Tree.plant_id {fresh : α → α} {p : List κ} {t : Tree κ α} (h : (t.lookup p).isSome) :
    t.plant fresh id p = t := by
  induction p generalizing t with
  | nil => rfl
  | cons k ks ih =>
    cases hk : t.children.find? k with
    | none => simp [lookup_cons, hk] at h
    | some s =>
      rw [plant_cons_some fresh id hk, ih (by simpa [lookup_cons, hk] using h), Forest.set_find? hk]

section Common

variable {π : α → β} {fresh : α → α} (hfresh : ∀ a, π (fresh a) = π a)

include hfresh

theorem Tree.anchor_plant {upd : α → α} (hupd : ∀ a, π (upd a) = π a) (p q : List κ)
    (t : Tree κ α) : π ((t.plant fresh upd p).anchor q) = π (t.anchor q) := by
  induction q generalizing p t with
  | nil =>
    cases p with
    | nil => exact hupd t.label
    | cons k ks => simp only [anchor, plant_label]
  | cons k ks ih =>
    cases p with
    | nil =>
      simp only [anchor, plant]
      cases t.children.find? k with
      | none => exact hupd t.label
      | some s => rfl
    | cons j js =>
      cases hj : t.children.find? j with
      | some s =>
        rw [plant_cons_some fresh upd hj]
        by_cases h : j = k
        · subst h
          simp only [anchor, Forest.find?_set_self hj, hj]
          exact ih js s
        · simp only [anchor, Forest.find?_set_ne _ _ (Ne.symm h)]
      | none =>
        rw [plant_cons_none fresh upd hj]
        by_cases h : j = k
        · subst h
          simp only [anchor, Forest.find?_append_self hj, hj]
          rw [ih js ⟨fresh t.label, .nil⟩]
          cases ks <;> exact hfresh t.label
        · simp only [anchor, Forest.find?_append_ne _ _ (Ne.symm h)]

variable (hidem : ∀ a, fresh (fresh a) = fresh a) (hπ : ∀ a b, π a = π b → fresh a = fresh b)

include hidem hπ

theorem Tree.node_plant_comm {upd upd' : α → α} (hupd : ∀ a, π (upd a) = π a)
    (hupd' : ∀ a, π (upd' a) = π a) {p p' : List κ} (hne : p ≠ p') (t : Tree κ α) (q : List κ) :
    ((t.plant fresh upd p).plant fresh upd' p').node q =
      ((t.plant fresh upd' p').plant fresh upd p).node q := by
  have hanchor : fresh ((t.plant fresh upd p).anchor p') = fresh (t.anchor p') :=
    hπ _ _ (anchor_plant hfresh hupd p p' t)
  have hanchor' : fresh ((t.plant fresh upd' p').anchor p) = fresh (t.anchor p) :=
    hπ _ _ (anchor_plant hfresh hupd' p' p t)
  rw [node_plant hidem, node_plant hidem, node_plant hidem, node_plant hidem, hanchor, hanchor']
  cases hq : t.node q with
  | some a =>
    by_cases h : q = p
    · subst h
      simp [hne]
    · simp [h]
  | none =>
    by_cases h : q <+: p
    · by_cases h' : q <+: p'
      · -- both writes would create the node, and from one ancestor
        rw [anchor_below hq h, anchor_below hq h']
        by_cases hqp : q = p
        · subst hqp
          simp [h', hne]
        · simp [h, h', hqp]
      · have hqp' : q ≠ p' := fun he => h' (he ▸ List.prefix_rfl)
        simp [h, h', hqp']
    · have hqp : q ≠ p := fun he => h (he ▸ List.prefix_rfl)
      by_cases h' : q <+: p' <;> simp [h, h', hqp]

end Common

end Keyed
