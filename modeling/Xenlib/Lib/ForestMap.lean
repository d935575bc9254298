import Xenlib.Lib.Forest

/-!
Relabelling the nodes of a tree. The shape of a tree stays, so that searching, replacing and
taking out go through it.
-/

set_option autoImplicit false

namespace Keyed

variable {κ α β : Type}

def Forest.map (g : α → β) : Forest κ α → Forest κ β
  | .nil => .nil
  | .cons k a c n => .cons k (g a) (c.map g) (n.map g)

def Tree.map (g : α → β) (t : Tree κ α) : Tree κ β := ⟨g t.label, t.children.map g⟩

@[simp] theorem Forest.keys_map (g : α → β) (f : Forest κ α) : (f.map g).keys = f.keys := by
  induction f with
  | nil => rfl
  | cons k a c n _ ihn => simp [map, keys, ihn]

theorem Forest.map_append (g : α → β) (k : κ) (t : Tree κ α) (f : Forest κ α) :
    (f.append k t).map g = (f.map g).append k (t.map g) := by
  induction f with
  | nil => rfl
  | cons j a c n _ ihn => simp [append, map, ihn]

variable [DecidableEq κ]

theorem Forest.find?_map (g : α → β) (k : κ) (f : Forest κ α) :
    (f.map g).find? k = (f.find? k).map (Tree.map g) := by
  induction f with
  | nil => rfl
  | cons j a c n _ ihn =>
    simp only [map, find?, ihn]
    split <;> rfl

theorem Forest.map_set (g : α → β) (k : κ) (t : Tree κ α) (f : Forest κ α) :
    (f.set k t).map g = (f.map g).set k (t.map g) := by
  induction f with
  | nil => rfl
  | cons j a c n _ ihn =>
    simp only [set, map]
    split <;> simp [map, ihn, Tree.map]

theorem Forest.map_erase (g : α → β) (k : κ) (f : Forest κ α) :
    (f.erase k).map g = (f.map g).erase k := by
  induction f with
  | nil => rfl
  | cons j a c n _ ihn =>
    simp only [erase, map]
    split <;> simp [map, ihn]

theorem Tree.lookup_map (g : α → β) (p : List κ) (t : Tree κ α) :
    (t.map g).lookup p = (t.lookup p).map (Tree.map g) := by
  induction p generalizing t with
  | nil => rfl
  | cons k ks ih =>
    simp only [lookup_cons, Tree.map, Forest.find?_map]
    cases t.children.find? k with
    | none => rfl
    | some s => simpa using ih s

theorem Tree.map_remove (g : α → β) (p : List κ) (t : Tree κ α) :
    (t.remove p).map g = (t.map g).remove p := by
  induction p generalizing t with
  | nil => rfl
  | cons k ks ih =>
    cases ks with
    | nil => simp [remove, Tree.map, Forest.map_erase]
    | cons j ks =>
      simp only [remove, Tree.map, Forest.find?_map]
      cases hk : t.children.find? k with
      | none => simp
      | some s =>
        simp only [Option.map_some, Forest.map_set]
        rw [ih s]

variable {g : α → β}

theorem Forest.find?_of_map_eq {f f' : Forest κ α} (h : f.map g = f'.map g) (k : κ) :
    (f.find? k = none ∧ f'.find? k = none) ∨
      ∃ t t', f.find? k = some t ∧ f'.find? k = some t' ∧ t.map g = t'.map g := by
  have hfind := congrArg (Forest.find? k) h
  rw [find?_map, find?_map] at hfind
  cases hf : f.find? k <;> cases hf' : f'.find? k <;> simp_all

theorem Tree.lookup_of_map_eq {t t' : Tree κ α} (h : t.map g = t'.map g) (p : List κ) :
    (t.lookup p = none ∧ t'.lookup p = none) ∨
      ∃ s s', t.lookup p = some s ∧ t'.lookup p = some s' ∧ s.map g = s'.map g := by
  have hlookup := congrArg (Tree.lookup p) h
  rw [lookup_map, lookup_map] at hlookup
  cases ht : t.lookup p <;> cases ht' : t'.lookup p <;> simp_all

end Keyed
