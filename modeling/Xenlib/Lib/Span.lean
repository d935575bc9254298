import Mathlib.Data.List.Basic
import Mathlib.Tactic.Common

/-!
Spans of a memory that is a list of cells: what is read from one, and what writing one leaves of
the others.
-/

set_option autoImplicit false

namespace Span

variable {α : Type}

/-- The `n` cells from `off` on. -/
def slice (mem : List α) (off n : Nat) : List α := (mem.drop off).take n

/-- The memory with other cells from `off` on. -/
def patch (mem : List α) (off : Nat) (data : List α) : List α :=
  mem.take off ++ data ++ mem.drop (off + data.length)

variable {mem a b c data : List α} {off n : Nat}

theorem slice_length (h : off + n ≤ mem.length) : (slice mem off n).length = n := by
  simp only [slice, List.length_take, List.length_drop]
  omega

theorem patch_length (h : off + data.length ≤ mem.length) :
    (patch mem off data).length = mem.length := by
  simp only [patch, List.length_append, List.length_take, List.length_drop]
  omega

theorem slice_append (hoff : off = a.length) (hn : n = b.length) :
    slice (a ++ (b ++ c)) off n = b := by
  subst hoff hn
  simp [slice]

theorem patch_append (hoff : off = a.length) (hlen : b.length = data.length) :
    patch (a ++ (b ++ c)) off data = a ++ (data ++ c) := by
  subst hoff
  simp [patch, ← hlen, List.append_assoc]

theorem slice_right (h : a.length ≤ off) : slice (a ++ b) off n = slice b (off - a.length) n := by
  rw [slice, List.drop_append, List.drop_eq_nil_of_le h, List.nil_append, slice]

end Span
