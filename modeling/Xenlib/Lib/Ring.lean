import Mathlib.Data.List.Basic
import Mathlib.Data.Nat.ModEq
import Mathlib.Tactic.Common

/-!
A byte queue kept in a cyclic array. Positions run freely; position `i` lives in
cell `i % N`. `content` reads off what lies between two positions, and the lemmas
say what a copy out of the array, or into it, does to that reading. A copy moves one
piece that does not pass the physical end of the array.
-/

set_option autoImplicit false

namespace Cyclic

variable {α : Type}

/-- Copy `data` over the cells from `off` on. -/
def blit (buf : Nat → α) (off : Nat) (data : List α) : Nat → α :=
  fun i => if off ≤ i then data.getD (i - off) (buf i) else buf i

/-- The `n` cells from `off` on. -/
def slice (buf : Nat → α) (off n : Nat) : List α := (List.range n).map fun i => buf (off + i)

/-- The `n` elements from position `start` on, in an array of `N` cells. -/
def content (N : Nat) (buf : Nat → α) (start n : Nat) : List α :=
  (List.range n).map fun i => buf ((start + i) % N)

/-- Write element by element from position `pos` on, wrapping at the end of the array. -/
def scatter (N : Nat) (buf : Nat → α) (pos : Nat) : List α → Nat → α
  | [] => buf
  | d :: ds => scatter N (blit buf (pos % N) [d]) (pos + 1) ds

@[simp] theorem content_length (N : Nat) (buf : Nat → α) (start n : Nat) :
    (content N buf start n).length = n := by simp [content]

@[simp] theorem slice_length (buf : Nat → α) (off n : Nat) : (slice buf off n).length = n := by
  simp [slice]

theorem content_add (N : Nat) (buf : Nat → α) (start m n : Nat) :
    content N buf start (m + n) = content N buf start m ++ content N buf (start + m) n := by
  simp [content, List.range_add, Nat.add_assoc, Function.comp_def]

theorem content_mod {N M : Nat} (h : N ∣ M) (buf : Nat → α) (start n : Nat) :
    content N buf (start % M) n = content N buf start n := by
  unfold content
  apply List.map_congr_left
  intro i _
  rw [Nat.add_mod (start % M), Nat.mod_mod_of_dvd start h, ← Nat.add_mod]

theorem add_mod_cell {N s j : Nat} (h : s % N + j < N) : (s + j) % N = s % N + j := by
  rw [← Nat.mod_add_mod, Nat.mod_eq_of_lt h]

/-- A piece that ends before the array does is a piece of the queue. -/
theorem slice_eq_content {N : Nat} {buf : Nat → α} {start n : Nat} (h : start % N + n ≤ N) :
    slice buf (start % N) n = content N buf start n := by
  unfold slice content
  apply List.map_congr_left
  intro i hi
  have hi : i < n := List.mem_range.mp hi
  rw [add_mod_cell (by omega)]

theorem blit_below {buf : Nat → α} {off i : Nat} (data : List α) (h : i < off) :
    blit buf off data i = buf i := by
  have : ¬ off ≤ i := by omega
  simp [blit, this]

theorem blit_above {buf : Nat → α} {off i : Nat} {data : List α} (h : off + data.length ≤ i) :
    blit buf off data i = buf i := by
  have h1 : off ≤ i := by omega
  have h2 : data.length ≤ i - off := by omega
  simp [blit, h1, List.getElem?_eq_none h2]

theorem mod_ne_of_lt {N s i j : Nat} (hij : i < j) (hj : j < N + i) :
    (s + i) % N ≠ (s + j) % N := by
  intro h
  have hd : N ∣ s + j - (s + i) := (Nat.modEq_iff_dvd' (by omega)).mp h
  have h0 : s + j - (s + i) = 0 := Nat.eq_zero_of_dvd_of_lt hd (by omega)
  omega

theorem content_blit_old {N : Nat} {buf : Nat → α} {start n : Nat} {data : List α}
    (hfit : n + data.length ≤ N) (hend : (start + n) % N + data.length ≤ N) :
    content N (blit buf ((start + n) % N) data) start n = content N buf start n := by
  unfold content
  apply List.map_congr_left
  intro i hi
  have hi : i < n := List.mem_range.mp hi
  rcases Nat.lt_or_ge ((start + i) % N) ((start + n) % N) with hlt | hge
  · exact blit_below data hlt
  rcases Nat.lt_or_ge ((start + i) % N) ((start + n) % N + data.length) with hlt | hge'
  · -- a cell inside the copied piece belongs to a later position
    exfalso
    obtain ⟨j, hj⟩ := Nat.exists_eq_add_of_le hge
    have hjl : j < data.length := by omega
    have hlast : (start + n) % N + j < N := by omega
    have hcell : (start + (n + j)) % N = (start + n) % N + j := by
      rw [← Nat.add_assoc, add_mod_cell hlast]
    have hne : (start + i) % N ≠ (start + (n + j)) % N := mod_ne_of_lt (by omega) (by omega)
    exact hne (by rw [hcell, hj])
  · exact blit_above hge'

theorem content_blit_new {N : Nat} {buf : Nat → α} {pos : Nat} {data : List α}
    (hend : pos % N + data.length ≤ N) :
    content N (blit buf (pos % N) data) pos data.length = data := by
  rw [← slice_eq_content hend]
  apply List.ext_getElem
  · simp
  · intro i h1 h2
    simp [slice, blit, h2]

theorem content_blit {N : Nat} {buf : Nat → α} {start n : Nat} {data : List α}
    (hfit : n + data.length ≤ N) (hend : (start + n) % N + data.length ≤ N) :
    content N (blit buf ((start + n) % N) data) start (n + data.length) =
      content N buf start n ++ data := by
  rw [content_add, content_blit_old hfit hend, content_blit_new hend]

@[simp] theorem blit_nil (buf : Nat → α) (off : Nat) : blit buf off [] = buf := by
  funext i
  simp [blit]

/-- A copy that goes on at the start of the array where it meets the end. -/
def blitTwo (N : Nat) (buf : Nat → α) (off : Nat) (data : List α) : Nat → α :=
  let chunk := min (N - off) data.length
  blit (blit buf off (data.take chunk)) 0 (data.drop chunk)

def sliceTwo (N : Nat) (buf : Nat → α) (off n : Nat) : List α :=
  let chunk := min (N - off) n
  slice buf off chunk ++ slice buf 0 (n - chunk)

theorem add_rest_mod {N : Nat} (start : Nat) (hN : 0 < N) : (start + (N - start % N)) % N = 0 := by
  have hdiv := Nat.div_add_mod start N
  have hlt : start % N < N := Nat.mod_lt _ hN
  have hturn : start + (N - start % N) = N * (start / N + 1) := by
    rw [Nat.mul_add]
    omega
  rw [hturn, Nat.mul_mod_right]

theorem sliceTwo_eq_content {N : Nat} {buf : Nat → α} {start n : Nat} (hN : 0 < N) (hn : n ≤ N) :
    sliceTwo N buf (start % N) n = content N buf start n := by
  have hlt : start % N < N := Nat.mod_lt _ hN
  simp only [sliceTwo]
  rcases Nat.le_total n (N - start % N) with hle | hge
  · rw [Nat.min_eq_right hle, Nat.sub_self, slice_eq_content (by omega)]
    simp [slice]
  · -- the second piece starts where the position is a whole number of turns
    have hwrap := add_rest_mod start hN
    have hsecond : slice buf 0 (n - (N - start % N)) =
        content N buf (start + (N - start % N)) (n - (N - start % N)) := by
      rw [← slice_eq_content (by omega), hwrap]
    rw [Nat.min_eq_left hge, slice_eq_content (by omega), hsecond, ← content_add,
      Nat.add_sub_cancel' hge]

theorem content_blitTwo {N : Nat} {buf : Nat → α} {start n : Nat} {data : List α} (hN : 0 < N)
    (hfit : n + data.length ≤ N) :
    content N (blitTwo N buf ((start + n) % N) data) start (n + data.length) =
      content N buf start n ++ data := by
  have hlt : (start + n) % N < N := Nat.mod_lt _ hN
  simp only [blitTwo]
  rcases Nat.le_total data.length (N - (start + n) % N) with hle | hge
  · rw [Nat.min_eq_right hle, List.take_length, List.drop_length, blit_nil]
    exact content_blit hfit (by omega)
  · rw [Nat.min_eq_left hge]
    have hwrap := add_rest_mod (start + n) hN
    generalize hchunk : N - (start + n) % N = chunk at hge hwrap
    have htake : (data.take chunk).length = chunk := List.length_take_of_le hge
    have hdrop : chunk + (data.drop chunk).length = data.length := by
      rw [List.length_drop, Nat.add_sub_cancel' hge]
    have hfirst : content N (blit buf ((start + n) % N) (data.take chunk)) start
        (n + (data.take chunk).length) = content N buf start n ++ data.take chunk :=
      content_blit (by omega) (by omega)
    rw [htake] at hfirst
    have hcell : (start + (n + chunk)) % N = 0 := by rw [← Nat.add_assoc, hwrap]
    have hsecond : content N (blit (blit buf ((start + n) % N) (data.take chunk))
          ((start + (n + chunk)) % N) (data.drop chunk)) start
        (n + chunk + (data.drop chunk).length) =
          content N (blit buf ((start + n) % N) (data.take chunk)) start (n + chunk) ++
            data.drop chunk :=
      content_blit (by omega) (by omega)
    rw [hcell, Nat.add_assoc, hdrop, hfirst, List.append_assoc, List.take_append_drop] at hsecond
    exact hsecond

theorem blit_shift (buf : Nat → α) (base off : Nat) (data : List α) :
    (fun i => blit buf (base + off) data (base + i)) = blit (fun i => buf (base + i)) off data := by
  funext i
  simp [blit, Nat.add_sub_add_left]

theorem slice_shift (buf : Nat → α) (base off n : Nat) :
    slice buf (base + off) n = slice (fun i => buf (base + i)) off n := by
  simp [slice, Nat.add_assoc]

theorem content_scatter {N : Nat} {buf : Nat → α} {start n : Nat} {data : List α}
    (hfit : n + data.length ≤ N) :
    content N (scatter N buf (start + n) data) start (n + data.length) =
      content N buf start n ++ data := by
  induction data generalizing buf n with
  | nil => simp [scatter]
  | cons d ds ih =>
    simp only [List.length_cons] at hfit
    have hN : 0 < N := by omega
    have hcell : (start + n) % N + [d].length ≤ N := Nat.mod_lt _ hN
    have h1 : content N (blit buf ((start + n) % N) [d]) start (n + 1) =
        content N buf start n ++ [d] := content_blit (by simp; omega) hcell
    rw [scatter, Nat.add_assoc start n 1, List.length_cons,
      show n + (ds.length + 1) = n + 1 + ds.length by omega,
      ih (n := n + 1) (by omega), h1, List.append_assoc, List.singleton_append]

theorem blit_singleton (buf : Nat → α) (off : Nat) (d : α) :
    blit buf off [d] = Function.update buf off d := by
  funext i
  rcases Nat.lt_trichotomy i off with hlt | rfl | hgt
  · rw [blit_below _ hlt, Function.update_of_ne (by omega)]
  · simp [blit]
  · rw [blit_above (by simp; omega), Function.update_of_ne (by omega)]

theorem scatter_outside {N : Nat} {buf : Nat → α} {pos i : Nat} {data : List α} (hN : 0 < N)
    (hi : N ≤ i) : scatter N buf pos data i = buf i := by
  induction data generalizing buf pos with
  | nil => rfl
  | cons d ds ih =>
    have hcell : pos % N < N := Nat.mod_lt _ hN
    rw [scatter, ih, blit_singleton, Function.update_of_ne (by omega)]

theorem scatter_congr {N : Nat} {i j : Nat} (h : i % N = j % N) (buf : Nat → α) (data : List α) :
    scatter N buf i data = scatter N buf j data := by
  induction data generalizing buf i j with
  | nil => rfl
  | cons d ds ih =>
    unfold scatter
    rw [h]
    exact ih (by rw [Nat.add_mod, h, ← Nat.add_mod]) _

end Cyclic
