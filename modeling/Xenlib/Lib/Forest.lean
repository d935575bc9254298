import Mathlib.Data.List.Basic
import Mathlib.Data.List.Infix
import Mathlib.Data.List.Nodup
import Mathlib.Data.Set.Finite.Basic
import Mathlib.Tactic.Common

/-!
Ordered trees whose siblings are told apart by keys. A child list is a `Forest`:
each entry holds its key, its label, its own child list and the siblings after it.
The operations act on the first sibling with a key, as a search through a linked
list does; `Distinct` says that the first is the only one.
-/

set_option autoImplicit false

namespace Keyed

inductive Forest (κ α : Type) where
  | nil : Forest κ α
  | cons (key : κ) (label : α) (children next : Forest κ α) : Forest κ α
  deriving DecidableEq, Repr

structure Tree (κ α : Type) where
  label : α
  children : Forest κ α
  deriving DecidableEq, Repr

variable {κ α : Type}

def Forest.keys : Forest κ α → List κ
  | .nil => []
  | .cons k _ _ n => k :: n.keys

def Forest.append (k : κ) (t : Tree κ α) : Forest κ α → Forest κ α
  | .nil => .cons k t.label t.children .nil
  | .cons j a c n => .cons j a c (n.append k t)

/-- `P` holds of the key and label of every node of the forest. -/
def Forest.All (P : κ → α → Prop) : Forest κ α → Prop
  | .nil => True
  | .cons k a c n => P k a ∧ c.All P ∧ n.All P

/-- Siblings have pairwise different keys, everywhere in the forest. -/
def Forest.Distinct : Forest κ α → Prop
  | .nil => True
  | .cons k _ c n => k ∉ n.keys ∧ c.Distinct ∧ n.Distinct

@[simp] theorem Forest.keys_append (k : κ) (t : Tree κ α) (f : Forest κ α) :
    (f.append k t).keys = f.keys ++ [k] := by
  induction f with
  | nil => rfl
  | cons j a c n _ ihn => simp [append, keys, ihn]

theorem Forest.All.append {P : κ → α → Prop} {k : κ} {t : Tree κ α} {f : Forest κ α}
    (h : f.All P) (ha : P k t.label) (hc : t.children.All P) : (f.append k t).All P := by
  induction f with
  | nil => exact ⟨ha, hc, trivial⟩
  | cons j a c n _ ihn => exact ⟨h.1, h.2.1, ihn h.2.2⟩

theorem Forest.All.imp {P Q : κ → α → Prop} {f : Forest κ α} (h : f.All P)
    (hpq : ∀ k a, P k a → Q k a) : f.All Q := by
  induction f with
  | nil => trivial
  | cons j a c n ihc ihn => exact ⟨hpq _ _ h.1, ihc h.2.1, ihn h.2.2⟩

theorem Forest.Distinct.nodup_keys {f : Forest κ α} (h : f.Distinct) : f.keys.Nodup := by
  induction f with
  | nil => exact List.nodup_nil
  | cons j a c n _ ihn => exact List.nodup_cons.mpr ⟨h.1, ihn h.2.2⟩

instance Forest.decidableAll (P : κ → α → Prop) [∀ k a, Decidable (P k a)] :
    (f : Forest κ α) → Decidable (f.All P)
  | .nil => inferInstanceAs (Decidable True)
  | .cons k a c n =>
    have := decidableAll P c
    have := decidableAll P n
    inferInstanceAs (Decidable (P k a ∧ c.All P ∧ n.All P))

variable [DecidableEq κ]

instance Forest.decidableDistinct : (f : Forest κ α) → Decidable f.Distinct
  | .nil => inferInstanceAs (Decidable True)
  | .cons k _ c n =>
    have := decidableDistinct c
    have := decidableDistinct n
    inferInstanceAs (Decidable (k ∉ n.keys ∧ c.Distinct ∧ n.Distinct))

def Forest.find? (k : κ) : Forest κ α → Option (Tree κ α)
  | .nil => none
  | .cons j a c n => if j = k then some ⟨a, c⟩ else n.find? k

/-- Replace the first sibling with key `k`. -/
def Forest.set (k : κ) (t : Tree κ α) : Forest κ α → Forest κ α
  | .nil => .nil
  | .cons j a c n => if j = k then .cons j t.label t.children n else .cons j a c (n.set k t)

def Forest.erase (k : κ) : Forest κ α → Forest κ α
  | .nil => .nil
  | .cons j a c n => if j = k then n else .cons j a c (n.erase k)

theorem Forest.find?_eq_none {k : κ} {f : Forest κ α} : f.find? k = none ↔ k ∉ f.keys := by
  induction f with
  | nil => simp [find?, keys]
  | cons j a c n _ ihn =>
    by_cases h : j = k
    · simp [find?, keys, h]
    · simp [find?, keys, h, ihn, Ne.symm h]

theorem Forest.mem_keys_of_find? {k : κ} {f : Forest κ α} {t : Tree κ α}
    (h : f.find? k = some t) : k ∈ f.keys := by
  by_contra hk
  rw [find?_eq_none.mpr hk] at h
  cases h

@[simp] theorem Forest.keys_set (k : κ) (t : Tree κ α) (f : Forest κ α) :
    (f.set k t).keys = f.keys := by
  induction f with
  | nil => rfl
  | cons j a c n _ ihn => by_cases h : j = k <;> simp [set, keys, h, ihn]

theorem Forest.find?_set_self {k : κ} {t s : Tree κ α} {f : Forest κ α}
    (h : f.find? k = some s) : (f.set k t).find? k = some t := by
  induction f with
  | nil => simp [find?] at h
  | cons j a c n _ ihn =>
    by_cases hj : j = k
    · simp [set, find?, hj]
    · simp only [find?, hj, if_false] at h
      simp [set, find?, hj, ihn h]

theorem Forest.find?_set_ne {j k : κ} (t : Tree κ α) (f : Forest κ α) (h : j ≠ k) :
    (f.set k t).find? j = f.find? j := by
  induction f with
  | nil => rfl
  | cons i a c n _ ihn =>
    by_cases hi : i = k
    · subst hi; simp [set, find?, Ne.symm h]
    · simp [set, find?, hi, ihn]

theorem Forest.set_find? {k : κ} {t : Tree κ α} {f : Forest κ α} (h : f.find? k = some t) :
    f.set k t = f := by
  induction f with
  | nil => rfl
  | cons j a c n _ ihn =>
    by_cases hj : j = k
    · simp only [find?, hj, if_true, Option.some.injEq] at h
      subst h
      simp [set, hj]
    · simp only [find?, hj, if_false] at h
      simp [set, hj, ihn h]

theorem Forest.find?_append_self {k : κ} {t : Tree κ α} {f : Forest κ α}
    (h : f.find? k = none) : (f.append k t).find? k = some t := by
  induction f with
  | nil => simp [append, find?]
  | cons j a c n _ ihn =>
    by_cases hj : j = k
    · simp [find?, hj] at h
    · simp only [find?, hj, if_false] at h
      simp [append, find?, hj, ihn h]

theorem Forest.find?_append_ne {j k : κ} (t : Tree κ α) (f : Forest κ α) (h : j ≠ k) :
    (f.append k t).find? j = f.find? j := by
  induction f with
  | nil => simp [append, find?, Ne.symm h]
  | cons i a c n _ ihn => by_cases hi : i = j <;> simp [append, find?, hi, ihn]

@[simp] theorem Forest.keys_erase (k : κ) (f : Forest κ α) :
    (f.erase k).keys = f.keys.erase k := by
  induction f with
  | nil => rfl
  | cons j a c n _ ihn =>
    by_cases h : j = k
    · simp [erase, keys, h]
    · have hb : (j == k) = false := by simpa using h
      simp [erase, keys, h, ihn, hb]

theorem Forest.find?_erase_ne {j k : κ} (f : Forest κ α) (h : j ≠ k) :
    (f.erase k).find? j = f.find? j := by
  induction f with
  | nil => rfl
  | cons i a c n _ ihn =>
    by_cases hi : i = k
    · subst hi; simp [erase, find?, Ne.symm h]
    · simp only [erase, hi, if_false, find?, ihn]

theorem Forest.erase_eq_self {k : κ} {f : Forest κ α} (h : f.find? k = none) : f.erase k = f := by
  induction f with
  | nil => rfl
  | cons j a c n _ ihn =>
    by_cases hj : j = k
    · simp [find?, hj] at h
    · simp only [find?, hj, if_false] at h
      simp [erase, hj, ihn h]

theorem Forest.erase_set_self (k : κ) (t : Tree κ α) (f : Forest κ α) :
    (f.set k t).erase k = f.erase k := by
  induction f with
  | nil => rfl
  | cons j a c n _ ihn => by_cases hj : j = k <;> simp [set, erase, hj, ihn]

theorem Forest.erase_append_self {k : κ} (t : Tree κ α) {f : Forest κ α}
    (h : f.find? k = none) : (f.append k t).erase k = f := by
  induction f with
  | nil => simp [append, erase]
  | cons j a c n _ ihn =>
    by_cases hj : j = k
    · simp [find?, hj] at h
    · simp only [find?, hj, if_false] at h
      simp [append, erase, hj, ihn h]

theorem Forest.erase_set_ne {j k : κ} (t : Tree κ α) (f : Forest κ α) (h : j ≠ k) :
    (f.set j t).erase k = (f.erase k).set j t := by
  induction f with
  | nil => rfl
  | cons i a c n _ ihn =>
    by_cases hi : i = j
    · subst hi
      simp [set, erase, h]
    · by_cases hk : i = k
      · subst hk
        simp [set, erase, hi]
      · simp [set, erase, hi, hk, ihn]

theorem Forest.erase_append_ne {j k : κ} (t : Tree κ α) (f : Forest κ α) (h : j ≠ k) :
    (f.append j t).erase k = (f.erase k).append j t := by
  induction f with
  | nil => simp [append, erase, h]
  | cons i a c n _ ihn => by_cases hk : i = k <;> simp [append, erase, hk, ihn]

theorem Forest.set_set_self (k : κ) (s t : Tree κ α) (f : Forest κ α) :
    (f.set k s).set k t = f.set k t := by
  induction f with
  | nil => rfl
  | cons j a c n _ ihn => by_cases hj : j = k <;> simp [set, hj, ihn]

theorem Forest.set_set_ne {j k : κ} (s t : Tree κ α) (f : Forest κ α) (h : j ≠ k) :
    (f.set j s).set k t = (f.set k t).set j s := by
  induction f with
  | nil => rfl
  | cons i a c n _ ihn =>
    by_cases hi : i = j
    · subst hi
      simp [set, h]
    · by_cases hk : i = k
      · subst hk
        simp [set, hi]
      · simp [set, hi, hk, ihn]

theorem Forest.set_append_ne {j k : κ} (s t : Tree κ α) (f : Forest κ α) (h : j ≠ k) :
    (f.append j s).set k t = (f.set k t).append j s := by
  induction f with
  | nil => simp [append, set, h]
  | cons i a c n _ ihn => by_cases hk : i = k <;> simp [append, set, hk, ihn]

section All
variable {P : κ → α → Prop} {k : κ} {t : Tree κ α} {f : Forest κ α}

theorem Forest.All.find? (h : f.All P) (hf : f.find? k = some t) :
    P k t.label ∧ t.children.All P := by
  induction f with
  | nil => simp [Forest.find?] at hf
  | cons j a c n _ ihn =>
    obtain ⟨ha, hc, hn⟩ := h
    by_cases hj : j = k
    · simp only [Forest.find?, hj, if_true, Option.some.injEq] at hf
      subst hj hf
      exact ⟨ha, hc⟩
    · simp only [Forest.find?, hj, if_false] at hf
      exact ihn hn hf

theorem Forest.All.set (h : f.All P) (ha : P k t.label) (hc : t.children.All P) :
    (f.set k t).All P := by
  induction f with
  | nil => trivial
  | cons j a c n _ ihn =>
    obtain ⟨h1, h2, h3⟩ := h
    by_cases hj : j = k
    · subst hj; simp only [Forest.set, if_true]; exact ⟨ha, hc, h3⟩
    · simp only [Forest.set, hj, if_false]; exact ⟨h1, h2, ihn h3⟩

theorem Forest.All.erase (k : κ) (h : f.All P) : (f.erase k).All P := by
  induction f with
  | nil => trivial
  | cons j a c n _ ihn =>
    obtain ⟨h1, h2, h3⟩ := h
    by_cases hj : j = k
    · simpa only [Forest.erase, hj, if_true] using h3
    · simp only [Forest.erase, hj, if_false]; exact ⟨h1, h2, ihn h3⟩

end All

section Distinct
variable {k : κ} {t : Tree κ α} {f : Forest κ α}

theorem Forest.Distinct.find? (h : f.Distinct) (hf : f.find? k = some t) :
    t.children.Distinct := by
  induction f with
  | nil => simp [Forest.find?] at hf
  | cons j a c n _ ihn =>
    by_cases hj : j = k
    · simp only [Forest.find?, hj, if_true, Option.some.injEq] at hf
      subst hf
      exact h.2.1
    · simp only [Forest.find?, hj, if_false] at hf
      exact ihn h.2.2 hf

theorem Forest.Distinct.set (h : f.Distinct) (ht : t.children.Distinct) :
    (f.set k t).Distinct := by
  induction f with
  | nil => trivial
  | cons j a c n _ ihn =>
    obtain ⟨h1, h2, h3⟩ := h
    by_cases hj : j = k
    · simp only [Forest.set, hj, if_true]; exact ⟨hj ▸ h1, ht, h3⟩
    · simp only [Forest.set, hj, if_false]; exact ⟨by simpa using h1, h2, ihn h3⟩

theorem Forest.Distinct.append (h : f.Distinct) (hk : f.find? k = none)
    (ht : t.children.Distinct) : (f.append k t).Distinct := by
  induction f with
  | nil => exact ⟨by simp [Forest.keys], ht, trivial⟩
  | cons j a c n _ ihn =>
    obtain ⟨h1, h2, h3⟩ := h
    by_cases hj : j = k
    · simp [Forest.find?, hj] at hk
    · simp only [Forest.find?, hj, if_false] at hk
      exact ⟨by simp [h1, hj], h2, ihn h3 hk⟩

theorem Forest.Distinct.erase (k : κ) (h : f.Distinct) : (f.erase k).Distinct := by
  induction f with
  | nil => trivial
  | cons j a c n _ ihn =>
    obtain ⟨h1, h2, h3⟩ := h
    by_cases hj : j = k
    · simpa only [Forest.erase, hj, if_true] using h3
    · simp only [Forest.erase, hj, if_false]
      exact ⟨fun hm => h1 (List.mem_of_mem_erase (keys_erase k n ▸ hm)), h2, ihn h3⟩

theorem Forest.Distinct.find?_erase_self (h : f.Distinct) : (f.erase k).find? k = none := by
  rw [Forest.find?_eq_none, keys_erase]
  exact h.nodup_keys.not_mem_erase

end Distinct

def Tree.lookup : List κ → Tree κ α → Option (Tree κ α)
  | [], t => some t
  | k :: ks, t =>
    match t.children.find? k with
    | none => none
    | some s => s.lookup ks

def Tree.view (t : Tree κ α) (p : List κ) : Option (α × List κ) :=
  (t.lookup p).map fun s => (s.label, s.children.keys)

def Tree.modify (f : α → α) : List κ → Tree κ α → Tree κ α
  | [], t => { t with label := f t.label }
  | k :: ks, t =>
    match t.children.find? k with
    | none => t
    | some s => { t with children := t.children.set k (s.modify f ks) }

def Tree.remove : List κ → Tree κ α → Tree κ α
  | [], t => t
  | [k], t => { t with children := t.children.erase k }
  | k :: j :: ks, t =>
    match t.children.find? k with
    | none => t
    | some s => { t with children := t.children.set k (s.remove (j :: ks)) }

/-- Relabel the node at a path with `upd`, first adding the missing nodes on the way.
A new node comes last among its siblings and is labelled by `fresh` from its parent. -/
def Tree.plant (fresh upd : α → α) : List κ → Tree κ α → Tree κ α
  | [], t => { t with label := upd t.label }
  | k :: ks, t =>
    match t.children.find? k with
    | some s => { t with children := t.children.set k (s.plant fresh upd ks) }
    | none => ⟨t.label, t.children.append k (Tree.plant fresh upd ks ⟨fresh t.label, .nil⟩)⟩

/-- The label of the deepest node that exists on the way to a path. -/
def Tree.anchor : List κ → Tree κ α → α
  | [], t => t.label
  | k :: ks, t =>
    match t.children.find? k with
    | some s => s.anchor ks
    | none => t.label

@[simp] theorem Tree.lookup_nil (t : Tree κ α) : t.lookup [] = some t := rfl

theorem Tree.lookup_cons (k : κ) (ks : List κ) (t : Tree κ α) :
    t.lookup (k :: ks) = (t.children.find? k).bind (Tree.lookup ks) := by
  cases h : t.children.find? k <;> simp [Tree.lookup, h]

theorem Tree.lookup_append (p q : List κ) (t : Tree κ α) :
    t.lookup (p ++ q) = (t.lookup p).bind (Tree.lookup q) := by
  induction p generalizing t with
  | nil => rfl
  | cons k ks ih =>
    simp only [List.cons_append, lookup_cons]
    cases t.children.find? k with
    | none => rfl
    | some s => exact ih s

/-- The set of existing paths is closed under taking ancestors. -/
theorem Tree.lookup_isSome_of_append {p q : List κ} {t : Tree κ α}
    (h : (t.lookup (p ++ q)).isSome) : (t.lookup p).isSome := by
  rw [lookup_append] at h
  cases hp : t.lookup p with
  | none => simp [hp] at h
  | some s => rfl

@[simp] theorem Tree.view_nil (t : Tree κ α) : t.view [] = some (t.label, t.children.keys) := rfl

theorem Tree.view_cons (k : κ) (ks : List κ) (t : Tree κ α) :
    t.view (k :: ks) = (t.children.find? k).bind (fun s => s.view ks) := by
  unfold view
  rw [lookup_cons]
  cases t.children.find? k <;> rfl

theorem Tree.view_isSome (t : Tree κ α) (p : List κ) :
    (t.view p).isSome = (t.lookup p).isSome := by
  simp [view]

theorem Tree.view_eq_none (t : Tree κ α) (p : List κ) :
    t.view p = none ↔ t.lookup p = none := by
  simp [view]

theorem Tree.modify_cons_some {f : α → α} {k : κ} {ks : List κ} {t s : Tree κ α}
    (h : t.children.find? k = some s) :
    t.modify f (k :: ks) = { t with children := t.children.set k (s.modify f ks) } := by
  simp [modify, h]

theorem Tree.modify_cons_none {f : α → α} {k : κ} {ks : List κ} {t : Tree κ α}
    (h : t.children.find? k = none) : t.modify f (k :: ks) = t := by
  simp [modify, h]

theorem Tree.remove_cons_some {k : κ} {ks : List κ} {t s : Tree κ α} (hks : ks ≠ [])
    (h : t.children.find? k = some s) :
    t.remove (k :: ks) = { t with children := t.children.set k (s.remove ks) } := by
  cases ks with
  | nil => contradiction
  | cons j js => simp [remove, h]

theorem Tree.remove_cons_none {k : κ} {ks : List κ} {t : Tree κ α} (hks : ks ≠ [])
    (h : t.children.find? k = none) : t.remove (k :: ks) = t := by
  cases ks with
  | nil => contradiction
  | cons j js => simp [remove, h]

theorem Tree.remove_eq_self {p : List κ} {t : Tree κ α} (h : t.lookup p = none) :
    t.remove p = t := by
  induction p generalizing t with
  | nil => simp at h
  | cons k ks ih =>
    cases hk : t.children.find? k with
    | none =>
      cases ks with
      | nil => simp [remove, Forest.erase_eq_self hk]
      | cons j js => exact remove_cons_none (List.cons_ne_nil j js) hk
    | some s =>
      cases ks with
      | nil => simp [lookup_cons, hk] at h
      | cons j js =>
        have hs : s.lookup (j :: js) = none := by simpa [lookup_cons, hk] using h
        rw [remove_cons_some (List.cons_ne_nil j js) hk, ih hs, Forest.set_find? hk]

/-- Removal deletes the node at `r ++ [k]` with everything below it, takes `k` out of
the order of its parent's children, and changes nothing else. -/
theorem Tree.view_remove (r : List κ) (k : κ) (q : List κ) {t : Tree κ α}
    (ht : t.children.Distinct) :
    (t.remove (r ++ [k])).view q =
      if r ++ [k] <+: q then none
      else (t.view q).map (fun e => (e.1, if q = r then e.2.erase k else e.2)) := by
  induction r generalizing t q with
  | nil =>
    cases q with
    | nil => simp [remove]
    | cons j js =>
      by_cases hj : j = k
      · subst hj
        simp [remove, view_cons, ht.find?_erase_self]
      · simp [remove, view_cons, Forest.find?_erase_ne _ hj, Ne.symm hj]
  | cons i r ih =>
    have hne : r ++ [k] ≠ [] := by simp
    cases hi : t.children.find? i with
    | none =>
      rw [List.cons_append, remove_cons_none hne hi]
      cases q with
      | nil => simp
      | cons j js =>
        by_cases hj : j = i
        · subst hj; simp [view_cons, hi]
        · have : ¬ i = j := fun h => hj h.symm
          simp [view_cons, hj, this]
    | some s =>
      rw [List.cons_append, remove_cons_some hne hi]
      cases q with
      | nil => simp
      | cons j js =>
        by_cases hj : j = i
        · subst hj
          simp [view_cons, Forest.find?_set_self hi, hi, ih js (ht.find? hi)]
        · have : ¬ i = j := fun h => hj h.symm
          simp [view_cons, Forest.find?_set_ne _ _ hj, hj, this]

section Plant
variable (fresh upd : α → α)

theorem Tree.plant_cons_some {k : κ} {ks : List κ} {t s : Tree κ α}
    (h : t.children.find? k = some s) :
    t.plant fresh upd (k :: ks) =
      { t with children := t.children.set k (s.plant fresh upd ks) } := by
  simp [plant, h]

theorem Tree.plant_cons_none {k : κ} {ks : List κ} {t : Tree κ α}
    (h : t.children.find? k = none) :
    t.plant fresh upd (k :: ks) =
      ⟨t.label, t.children.append k (Tree.plant fresh upd ks ⟨fresh t.label, .nil⟩)⟩ := by
  simp [plant, h]

/-- The component that leads from the path `q` one step further towards `p`. -/
def towards (q p : List κ) : List κ := if q <+: p then (p.drop q.length).take 1 else []

@[simp] theorem towards_nil_cons (k : κ) (ks : List κ) : towards [] (k :: ks) = [k] := by
  simp [towards]

@[simp] theorem towards_nil_nil : towards ([] : List κ) [] = [] := by simp [towards]

theorem towards_cons_cons (k : κ) (q p : List κ) : towards (k :: q) (k :: p) = towards q p := by
  simp [towards]

theorem towards_cons_ne {j k : κ} (q p : List κ) (h : j ≠ k) :
    towards (j :: q) (k :: p) = [] := by
  simp [towards, h]

theorem Tree.view_plant_leaf (p q : List κ) (a : α) (ha : fresh a = a) :
    (Tree.plant fresh upd p ⟨a, .nil⟩ : Tree κ α).view q =
      if q <+: p then some (if q = p then upd a else a, towards q p) else none := by
  induction p generalizing q with
  | nil =>
    cases q with
    | nil => simp [plant, Forest.keys]
    | cons j js => simp [plant, view_cons, Forest.find?]
  | cons k ks ih =>
    have hnil : (Forest.nil : Forest κ α).find? k = none := rfl
    rw [plant_cons_none fresh upd hnil, ha]
    cases q with
    | nil => simp [Forest.keys]
    | cons j js =>
      by_cases hj : j = k
      · subst hj
        simp [view_cons, Forest.find?_append_self hnil, ih, towards_cons_cons]
      · simp [view_cons, Forest.find?_append_ne _ _ hj, hj, Forest.find?]

/-- What a write along `p` leaves at every path: existing nodes keep their label, except
that `upd` is applied at `p`; missing nodes on the way are labelled from the deepest
existing one; each new node is appended to the order of its parent's children. -/
theorem Tree.view_plant (hf : ∀ a, fresh (fresh a) = fresh a) (p q : List κ) (t : Tree κ α) :
    (t.plant fresh upd p).view q =
      match t.view q with
      | some e => some (if q = p then upd e.1 else e.1,
          if (t.view (q ++ towards q p)).isSome then e.2 else e.2 ++ towards q p)
      | none =>
        if q <+: p then
          some (if q = p then upd (fresh (t.anchor p)) else fresh (t.anchor p), towards q p)
        else none := by
  induction p generalizing t q with
  | nil =>
    cases q with
    | nil => simp [plant]
    | cons j js =>
      have ht : towards (j :: js) ([] : List κ) = [] := by simp [towards]
      simp only [plant, view_cons, ht, List.append_nil, reduceCtorEq, if_false,
        List.prefix_nil]
      cases t.children.find? j with
      | none => rfl
      | some s => simp; cases s.view js <;> rfl
  | cons k ks ih =>
    cases hk : t.children.find? k with
    | some s =>
      rw [plant_cons_some fresh upd hk]
      cases q with
      | nil => simp [view_cons, hk]
      | cons j js =>
        by_cases hj : j = k
        · subst hj
          simp only [view_cons, Forest.find?_set_self hk, hk, Option.bind_some, ih,
            List.cons.injEq, true_and, towards_cons_cons, List.cons_append, anchor,
            List.cons_prefix_cons]
        · simp only [view_cons, Forest.find?_set_ne _ _ hj, List.cons.injEq, hj, false_and,
            if_false, towards_cons_ne js ks hj, List.append_nil, List.cons_prefix_cons]
          cases (t.children.find? j).bind fun s => s.view js <;> simp
    | none =>
      rw [plant_cons_none fresh upd hk]
      cases q with
      | nil => simp [view_cons, hk]
      | cons j js =>
        by_cases hj : j = k
        · subst hj
          simp [view_cons, Forest.find?_append_self hk, hk, anchor,
            view_plant_leaf fresh upd ks js (fresh t.label) (hf _), towards_cons_cons]
        · simp only [view_cons, Forest.find?_append_ne _ _ hj, List.cons.injEq, hj, false_and,
            if_false, towards_cons_ne js ks hj, List.append_nil, List.cons_prefix_cons]
          cases (t.children.find? j).bind fun s => s.view js <;> simp

theorem Tree.remove_plant (r : List κ) (k : κ) (q : List κ) {t : Tree κ α}
    (hr : (t.lookup r).isSome) :
    (t.plant fresh upd (r ++ k :: q)).remove (r ++ [k]) = t.remove (r ++ [k]) := by
  induction r generalizing t with
  | nil =>
    cases hk : t.children.find? k with
    | some s =>
      rw [List.nil_append, List.nil_append, plant_cons_some fresh upd hk]
      simp [remove, Forest.erase_set_self]
    | none =>
      rw [List.nil_append, List.nil_append, plant_cons_none fresh upd hk]
      simp [remove, Forest.erase_append_self _ hk, Forest.erase_eq_self hk]
  | cons j r ih =>
    have hne : r ++ [k] ≠ [] := by simp
    cases hj : t.children.find? j with
    | none => simp [lookup_cons, hj] at hr
    | some s =>
      have hs : (s.lookup r).isSome := by simpa [lookup_cons, hj] using hr
      rw [List.cons_append, List.cons_append, plant_cons_some fresh upd hj,
        remove_cons_some hne (Forest.find?_set_self hj), remove_cons_some hne hj, ih hs]
      simp [Forest.set_set_self]

theorem Tree.find?_remove_ne {j k : κ} (h : j ≠ k) (p : List κ) (t : Tree κ α) :
    (t.remove (k :: p)).children.find? j = t.children.find? j := by
  cases p with
  | nil => exact Forest.find?_erase_ne _ h
  | cons i p =>
    cases hk : t.children.find? k with
    | none => rw [remove_cons_none (List.cons_ne_nil i p) hk]
    | some s =>
      rw [remove_cons_some (List.cons_ne_nil i p) hk]
      exact Forest.find?_set_ne _ _ h

theorem Tree.lookup_remove_ne {j k : κ} (h : j ≠ k) (p q : List κ) (t : Tree κ α) :
    (t.remove (k :: p)).lookup (j :: q) = t.lookup (j :: q) := by
  rw [lookup_cons, lookup_cons, find?_remove_ne h]

theorem Tree.remove_plant_ne {j k : κ} (h : j ≠ k) (p q : List κ) (t : Tree κ α) :
    (t.plant fresh upd (j :: q)).remove (k :: p) =
      (t.remove (k :: p)).plant fresh upd (j :: q) := by
  have hfind : (t.plant fresh upd (j :: q)).children.find? k = t.children.find? k := by
    cases hj : t.children.find? j with
    | some s => rw [plant_cons_some fresh upd hj, Forest.find?_set_ne _ _ h.symm]
    | none => rw [plant_cons_none fresh upd hj, Forest.find?_append_ne _ _ h.symm]
  have hfind' := find?_remove_ne h p t
  cases hj : t.children.find? j with
  | some s =>
    rw [plant_cons_some fresh upd (hfind'.trans hj)]
    rw [plant_cons_some fresh upd hj] at hfind ⊢
    cases p with
    | nil => simp [remove, Forest.erase_set_ne _ _ h]
    | cons i p =>
      cases hk : t.children.find? k with
      | none => simp [remove, hk, Forest.find?_set_ne _ _ h.symm]
      | some s' => simp [remove, hk, Forest.find?_set_ne _ _ h.symm, Forest.set_set_ne _ _ _ h]
  | none =>
    rw [plant_cons_none fresh upd (hfind'.trans hj)]
    rw [plant_cons_none fresh upd hj] at hfind ⊢
    cases p with
    | nil => simp [remove, Forest.erase_append_ne _ _ h]
    | cons i p =>
      cases hk : t.children.find? k with
      | none => simp [remove, hk, Forest.find?_append_ne _ _ h.symm]
      | some s' =>
        simp [remove, hk, Forest.find?_append_ne _ _ h.symm, Forest.set_append_ne _ _ _ h]

end Plant

/-- `anchor` is the label of the longest existing prefix of the path. -/
theorem Tree.anchor_spec (p : List κ) (t : Tree κ α) :
    ∃ q s, q <+: p ∧ t.lookup q = some s ∧ s.label = t.anchor p ∧
      ∀ r, r <+: p → (t.lookup r).isSome → r <+: q := by
  induction p generalizing t with
  | nil => exact ⟨[], t, List.prefix_rfl, rfl, rfl, fun r hr _ => hr⟩
  | cons k ks ih =>
    cases hk : t.children.find? k with
    | none =>
      refine ⟨[], t, List.nil_prefix, rfl, by simp [anchor, hk], fun r hr hs => ?_⟩
      cases r with
      | nil => exact List.prefix_rfl
      | cons j js =>
        obtain ⟨rfl, _⟩ := List.cons_prefix_cons.mp hr
        simp [lookup_cons, hk] at hs
    | some s =>
      obtain ⟨q, n, hq, hn, hl, hmax⟩ := ih s
      refine ⟨k :: q, n, List.cons_prefix_cons.mpr ⟨rfl, hq⟩, by simp [lookup_cons, hk, hn],
        by simp [anchor, hk, hl], fun r hr hs => ?_⟩
      cases r with
      | nil => exact List.nil_prefix
      | cons j js =>
        obtain ⟨rfl, hjs⟩ := List.cons_prefix_cons.mp hr
        simp only [lookup_cons, hk, Option.bind_some] at hs
        exact List.cons_prefix_cons.mpr ⟨rfl, hmax js hjs hs⟩

section Preserve
variable {P : κ → α → Prop} {f fresh upd : α → α} {p : List κ} {t s : Tree κ α}

theorem Tree.distinct_lookup (h : t.children.Distinct) (hs : t.lookup p = some s) :
    s.children.Distinct := by
  induction p generalizing t with
  | nil => cases hs; exact h
  | cons k ks ih =>
    cases hk : t.children.find? k with
    | none => simp [lookup_cons, hk] at hs
    | some r =>
      simp only [lookup_cons, hk, Option.bind_some] at hs
      exact ih (h.find? hk) hs

theorem Tree.modify_label {k : κ} {ks : List κ} : (t.modify f (k :: ks)).label = t.label := by
  unfold modify
  split <;> rfl

theorem Tree.all_modify (hf : ∀ k a, P k a → P k (f a)) (h : t.children.All P) :
    (t.modify f p).children.All P := by
  induction p generalizing t with
  | nil => exact h
  | cons k ks ih =>
    cases hk : t.children.find? k with
    | none => rw [modify_cons_none hk]; exact h
    | some s =>
      rw [modify_cons_some hk]
      obtain ⟨hl, hc⟩ := h.find? hk
      refine h.set ?_ (ih hc)
      cases ks with
      | nil => exact hf _ _ hl
      | cons j js => rw [modify_label]; exact hl

theorem Tree.distinct_modify (h : t.children.Distinct) : (t.modify f p).children.Distinct := by
  induction p generalizing t with
  | nil => exact h
  | cons k ks ih =>
    cases hk : t.children.find? k with
    | none => rw [modify_cons_none hk]; exact h
    | some s => rw [modify_cons_some hk]; exact h.set (ih (h.find? hk))

theorem Tree.remove_label (p : List κ) (t : Tree κ α) : (t.remove p).label = t.label := by
  unfold remove
  split
  · rfl
  · rfl
  · split <;> rfl

theorem Tree.all_remove (h : t.children.All P) : (t.remove p).children.All P := by
  induction p generalizing t with
  | nil => exact h
  | cons k ks ih =>
    by_cases hks : ks = []
    · subst hks; exact h.erase k
    · cases hk : t.children.find? k with
      | none => rw [remove_cons_none hks hk]; exact h
      | some s =>
        rw [remove_cons_some hks hk]
        obtain ⟨hl, hc⟩ := h.find? hk
        exact h.set (by rw [remove_label]; exact hl) (ih hc)

theorem Tree.distinct_remove (h : t.children.Distinct) : (t.remove p).children.Distinct := by
  induction p generalizing t with
  | nil => exact h
  | cons k ks ih =>
    by_cases hks : ks = []
    · subst hks; exact h.erase k
    · cases hk : t.children.find? k with
      | none => rw [remove_cons_none hks hk]; exact h
      | some s => rw [remove_cons_some hks hk]; exact h.set (ih (h.find? hk))

theorem Tree.plant_label {k : κ} {ks : List κ} :
    (t.plant fresh upd (k :: ks)).label = t.label := by
  unfold plant
  split <;> rfl

theorem Tree.all_plant {K : κ → Prop} {L : α → Prop} (hK : ∀ k ∈ p, K k)
    (hf : ∀ a, L a → L (fresh a)) (hu : ∀ a, L a → L (upd a)) (hl : L t.label)
    (h : t.children.All fun k a => K k ∧ L a) :
    L (t.plant fresh upd p).label ∧ (t.plant fresh upd p).children.All fun k a => K k ∧ L a := by
  induction p generalizing t with
  | nil => exact ⟨hu _ hl, h⟩
  | cons k ks ih =>
    have hks : ∀ j ∈ ks, K j := fun j hj => hK j (List.mem_cons_of_mem _ hj)
    refine ⟨by rw [plant_label]; exact hl, ?_⟩
    cases hk : t.children.find? k with
    | some s =>
      rw [plant_cons_some fresh upd hk]
      obtain ⟨⟨_, hs⟩, hc⟩ := h.find? hk
      obtain ⟨hl', hc'⟩ := ih hks hs hc
      exact h.set ⟨hK k List.mem_cons_self, hl'⟩ hc'
    | none =>
      rw [plant_cons_none fresh upd hk]
      obtain ⟨hl', hc'⟩ := ih (t := ⟨fresh t.label, .nil⟩) hks (hf _ hl) trivial
      exact h.append ⟨hK k List.mem_cons_self, hl'⟩ hc'

theorem Tree.distinct_plant (h : t.children.Distinct) :
    (t.plant fresh upd p).children.Distinct := by
  induction p generalizing t with
  | nil => exact h
  | cons k ks ih =>
    cases hk : t.children.find? k with
    | some s => rw [plant_cons_some fresh upd hk]; exact h.set (ih (h.find? hk))
    | none =>
      rw [plant_cons_none fresh upd hk]
      exact h.append hk (ih (t := ⟨fresh t.label, .nil⟩) trivial)

end Preserve

theorem Forest.finite_paths (f : Forest κ α) :
    {p : List κ | ∃ k ks s, p = k :: ks ∧ f.find? k = some s ∧ (s.lookup ks).isSome}.Finite := by
  induction f with
  | nil => simp [find?]
  | cons j a c n ihc ihn =>
    have hc : {q : List κ | ((⟨a, c⟩ : Tree κ α).lookup q).isSome}.Finite := by
      refine (Set.finite_singleton ([] : List κ)).union ihc |>.subset fun q hq => ?_
      cases q with
      | nil => exact Or.inl rfl
      | cons k ks =>
        right
        cases hk : c.find? k with
        | none => simp [Tree.lookup_cons, hk] at hq
        | some s => exact ⟨k, ks, s, rfl, hk, by simpa [Tree.lookup_cons, hk] using hq⟩
    refine ((hc.image (List.cons j)).union ihn).subset ?_
    rintro p ⟨k, ks, s, rfl, hk, hs⟩
    by_cases h : j = k
    · left
      subst h
      simp only [find?, if_true, Option.some.injEq] at hk
      exact ⟨ks, by simpa [hk] using hs, rfl⟩
    · right
      simp only [find?, h, if_false] at hk
      exact ⟨k, ks, s, rfl, hk, hs⟩

theorem Tree.finite_paths (t : Tree κ α) : {p : List κ | (t.view p).isSome}.Finite := by
  refine ((Set.finite_singleton ([] : List κ)).union t.children.finite_paths).subset fun p hp => ?_
  rw [Set.mem_ofPred_eq, view_isSome] at hp
  cases p with
  | nil => exact Or.inl rfl
  | cons k ks =>
    right
    cases hk : t.children.find? k with
    | none => simp [lookup_cons, hk] at hp
    | some s => exact ⟨k, ks, s, rfl, hk, by simpa [lookup_cons, hk] using hp⟩

theorem Tree.view_order {p : List κ} {a : α} {order : List κ} {t : Tree κ α}
    (h : t.view p = some (a, order)) (k : κ) : k ∈ order ↔ (t.view (p ++ [k])).isSome := by
  rw [view_isSome, lookup_append]
  unfold view at h
  cases hp : t.lookup p with
  | none => simp [hp] at h
  | some s =>
    simp only [hp, Option.map_some, Option.some.injEq, Prod.mk.injEq] at h
    rw [Option.bind_some, lookup_cons, ← h.2]
    cases hk : s.children.find? k with
    | none => simpa using Forest.find?_eq_none.mp hk
    | some n => simpa using Forest.mem_keys_of_find? hk

end Keyed
