import Mathlib.Data.List.Basic
import Xenlib.Lib.Plant

/-!
The nodes of a tree in pre-order, each with the path that leads to it.
-/

set_option autoImplicit false

namespace Keyed

variable {κ α : Type}

/-- The nodes of a forest whose roots are the children of the node at `p`. -/
def Forest.preorder (p : List κ) : Forest κ α → List (List κ × α)
  | .nil => []
  | .cons k a children next =>
    (p ++ [k], a) :: (children.preorder (p ++ [k]) ++ next.preorder p)

def Tree.preorder (t : Tree κ α) : List (List κ × α) := ([], t.label) :: t.children.preorder []

theorem Forest.preorder_path {f : Forest κ α} {p q : List κ} {a : α} (h : (q, a) ∈ f.preorder p) :
    ∃ k ∈ f.keys, p ++ [k] <+: q := by
  induction f generalizing p with
  | nil => cases h
  | cons k b children next ihc ihn =>
    rw [preorder, List.mem_cons, List.mem_append] at h
    rcases h with h | h | h
    · cases h
      exact ⟨k, List.mem_cons_self, List.prefix_rfl⟩
    · obtain ⟨j, -, hj⟩ := ihc h
      exact ⟨k, List.mem_cons_self, (List.prefix_append _ _).trans hj⟩
    · obtain ⟨j, hmem, hj⟩ := ihn h
      exact ⟨j, List.mem_cons_of_mem _ hmem, hj⟩

theorem Forest.preorder_length {f : Forest κ α} {p : List κ} {n : List κ × α}
    (h : n ∈ f.preorder p) : p.length < n.1.length := by
  obtain ⟨k, -, hk⟩ := Forest.preorder_path h
  have := hk.length_le
  rw [List.length_append, List.length_singleton] at this
  omega

theorem key_of_extension {p q : List κ} {j k : κ} (hj : p ++ [j] <+: q) (hk : p ++ [k] <+: q) :
    j = k := by
  have hlen : (p ++ [j]).length = (p ++ [k]).length := by simp
  have heq := (List.prefix_of_prefix_length_le hj hk hlen.le).eq_of_length hlen
  exact List.singleton_inj.mp (List.append_cancel_left heq)

theorem Forest.nodup_preorder {f : Forest κ α} (hd : f.Distinct) (p : List κ) :
    ((f.preorder p).map Prod.fst).Nodup := by
  induction f generalizing p with
  | nil => exact List.nodup_nil
  | cons k a children next ihc ihn =>
    obtain ⟨hk, hc, hn⟩ := hd
    rw [preorder, List.map_cons, List.map_append, List.nodup_cons, List.nodup_append]
    refine ⟨fun hmem => ?_, ihc hc _, ihn hn _, fun q hq q' hq' heq => ?_⟩
    · obtain hmem | hmem := List.mem_append.mp hmem
      · obtain ⟨n, hn, hpath⟩ := List.mem_map.mp hmem
        have := Forest.preorder_length hn
        rw [hpath] at this
        exact lt_irrefl _ this
      · obtain ⟨⟨q, b⟩, hn, hpath⟩ := List.mem_map.mp hmem
        obtain ⟨j, hj, hpre⟩ := Forest.preorder_path hn
        rw [show q = p ++ [k] from hpath] at hpre
        exact hk (key_of_extension hpre List.prefix_rfl ▸ hj)
    · subst heq
      obtain ⟨⟨q₁, b₁⟩, hn₁, rfl⟩ := List.mem_map.mp hq
      obtain ⟨⟨q₂, b₂⟩, hn₂, hpath⟩ := List.mem_map.mp hq'
      obtain ⟨i, -, hi⟩ := Forest.preorder_path hn₁
      obtain ⟨j, hj, hpre⟩ := Forest.preorder_path hn₂
      rw [show q₂ = q₁ from hpath] at hpre
      exact hk (key_of_extension hpre ((List.prefix_append _ _).trans hi) ▸ hj)

theorem Tree.nodup_preorder {t : Tree κ α} (hd : t.children.Distinct) :
    (t.preorder.map Prod.fst).Nodup := by
  rw [preorder, List.map_cons, List.nodup_cons]
  refine ⟨fun hmem => ?_, Forest.nodup_preorder hd []⟩
  obtain ⟨n, hn, hpath⟩ := List.mem_map.mp hmem
  have := Forest.preorder_length hn
  rw [hpath] at this
  exact lt_irrefl _ this

variable [DecidableEq κ]

theorem Forest.mem_preorder {f : Forest κ α} (hd : f.Distinct) {p q : List κ} {a : α} :
    (q, a) ∈ f.preorder p ↔
      ∃ k ks, q = p ++ k :: ks ∧ (f.find? k).bind (fun t => t.node ks) = some a := by
  induction f generalizing p q with
  | nil => simp [preorder, Forest.find?]
  | cons j b children next ihc ihn =>
    obtain ⟨hj, hc, hn⟩ := hd
    rw [preorder, List.mem_cons, List.mem_append, ihc hc, ihn hn]
    constructor
    · rintro (h | ⟨k, ks, rfl, h⟩ | ⟨k, ks, rfl, h⟩)
      · cases h
        exact ⟨j, [], rfl, by simp [Forest.find?, Tree.node, Tree.lookup]⟩
      · refine ⟨j, k :: ks, by simp, ?_⟩
        simpa [Forest.find?, Tree.node, Tree.lookup_cons] using h
      · refine ⟨k, ks, rfl, ?_⟩
        have hne : j ≠ k := by
          rintro rfl
          rw [Forest.find?_eq_none.mpr hj] at h
          cases h
        simpa [Forest.find?, hne] using h
    · rintro ⟨k, ks, rfl, h⟩
      by_cases hjk : j = k
      · subst hjk
        cases ks with
        | nil =>
          have hab : b = a := by simpa [Forest.find?, Tree.node, Tree.lookup] using h
          exact Or.inl (by rw [hab])
        | cons i is =>
          refine Or.inr (Or.inl ⟨i, is, by simp, ?_⟩)
          simpa [Forest.find?, Tree.node, Tree.lookup_cons] using h
      · exact Or.inr (Or.inr ⟨k, ks, rfl, by simpa [Forest.find?, hjk] using h⟩)

theorem Tree.mem_preorder {t : Tree κ α} (hd : t.children.Distinct) {q : List κ} {a : α} :
    (q, a) ∈ t.preorder ↔ t.node q = some a := by
  rw [preorder, List.mem_cons, Forest.mem_preorder hd]
  cases q with
  | nil => simp [Tree.node, Tree.lookup, eq_comm]
  | cons k ks => simp [Tree.node, Tree.lookup_cons]

end Keyed
