import Mathlib.Algebra.Ring.Nat
import Mathlib.Data.List.TakeWhile

/-!
The tokens of a text, which are what stands between its delimiters and is not empty.
-/

set_option autoImplicit false

namespace Tokens

variable {α : Type} [DecidableEq α]

def delimited (d : α) (s : List α) : List (List α) := (s.splitOn d).filter (· ≠ [])

variable {d : α} {s : List α}

theorem delimited_append (a b : List α) :
    delimited d (a ++ d :: b) = delimited d a ++ delimited d b := by
  rw [delimited, List.splitOn_append_cons_self, List.filter_append]
  rfl

theorem delimited_nil : delimited d [] = [] := by simp [delimited]

theorem delimited_delim (s : List α) : delimited d (d :: s) = delimited d s := by
  simpa [delimited_nil] using delimited_append (d := d) [] s

theorem delimited_single (h : d ∉ s) (hne : s ≠ []) : delimited d s = [s] := by
  rw [delimited, List.splitOn_eq_singleton h]
  simp [hne]

theorem delimited_first (s : List α) :
    delimited d s = match s.dropWhile (· = d) with
      | [] => []
      | c :: cs => (c :: cs).takeWhile (· ≠ d) ::
          delimited d (((c :: cs).dropWhile (· ≠ d)).drop 1) := by
  induction s with
  | nil => simp [delimited_nil]
  | cons c cs ih =>
    by_cases hc : c = d
    · subst hc
      rw [delimited_delim, ih]
      simp
    · rw [List.dropWhile_cons_of_neg (by simpa using hc)]
      show _ = (c :: cs).takeWhile (· ≠ d) :: delimited d (((c :: cs).dropWhile (· ≠ d)).drop 1)
      have htake : d ∉ (c :: cs).takeWhile (· ≠ d) := fun h => by
        simpa using List.mem_takeWhile_imp h
      have hne : (c :: cs).takeWhile (· ≠ d) ≠ [] := by simp [hc]
      have hsplit : (c :: cs).takeWhile (· ≠ d) ++ (c :: cs).dropWhile (· ≠ d) = c :: cs :=
        List.takeWhile_append_dropWhile
      cases hdrop : (c :: cs).dropWhile (· ≠ d) with
      | nil =>
        rw [hdrop, List.append_nil] at hsplit
        rw [List.drop_nil, delimited_nil, hsplit,
          delimited_single (hsplit ▸ htake) (List.cons_ne_nil _ _)]
      | cons x rest =>
        have hx : x = d := by
          have hhead := List.head?_dropWhile_not (fun x => decide (x ≠ d)) (c :: cs)
          rw [hdrop] at hhead
          simpa using hhead
        subst hx
        rw [hdrop] at hsplit
        have hfirst := delimited_append (d := x) ((c :: cs).takeWhile (· ≠ x)) rest
        rw [hsplit, delimited_single htake hne] at hfirst
        exact hfirst

theorem delimited_intercalate {ls : List (List α)} (h : ∀ l ∈ ls, d ∉ l) :
    delimited d ([d].intercalate ls) = ls.filter (· ≠ []) := by
  by_cases hls : ls = []
  · subst hls
    simp [List.intercalate_nil, delimited_nil]
  · rw [delimited, List.splitOn_intercalate d h hls]

omit [DecidableEq α] in
theorem mem_intercalate {x : α} {ls : List (List α)} (h : x ∈ [d].intercalate ls) :
    x = d ∨ ∃ l ∈ ls, x ∈ l := by
  induction ls with
  | nil => cases h
  | cons a ls ih =>
    cases ls with
    | nil => exact Or.inr ⟨a, List.mem_cons_self, by simpa using h⟩
    | cons b ls =>
      rw [List.intercalate_cons_cons, List.append_assoc, List.mem_append, List.singleton_append,
        List.mem_cons] at h
      rcases h with h | h | h
      · exact Or.inr ⟨a, List.mem_cons_self, h⟩
      · exact Or.inl h
      · rcases ih h with h | ⟨l, hl, hx⟩
        · exact Or.inl h
        · exact Or.inr ⟨l, List.mem_cons_of_mem _ hl, hx⟩

omit [DecidableEq α] in
theorem length_intercalate (d : α) (ls : List (List α)) :
    ([d].intercalate ls).length = (ls.map fun l => l.length + 1).sum - 1 := by
  induction ls with
  | nil => rfl
  | cons a ls ih =>
    cases ls with
    | nil => simp
    | cons b ls =>
      simp only [List.intercalate_cons_cons, List.length_append, List.map_cons, List.sum_cons,
        List.length_singleton, ih]
      omega

end Tokens
