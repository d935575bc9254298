import Mathlib.Tactic.Cases
import Xenlib.Lib.Ring

/-!
One producer and one consumer over a cyclic array of `N` cells, with 32-bit positions
that wrap. Each side works in three steps: it looks at the positions and picks its cells,
it copies, and it moves its own position. The other side may take steps in between.
`Stream` is what every step of either side keeps.
-/

set_option autoImplicit false

namespace Cyclic

variable {α : Type} {N : Nat}

theorem distance_advance {cons prod : UInt32} {n : Nat} (hN : N < 2 ^ 32)
    (h : (prod - cons).toNat + n ≤ N) :
    (prod + UInt32.ofNat n - cons).toNat = (prod - cons).toNat + n := by
  have hc := cons.toNat_lt
  have hp := prod.toNat_lt
  simp only [UInt32.toNat_sub, UInt32.toNat_add, UInt32.toNat_ofNat'] at h ⊢
  omega

theorem distance_follow {cons prod : UInt32} {n : Nat} (h : n ≤ (prod - cons).toNat) :
    (prod - (cons + UInt32.ofNat n)).toNat = (prod - cons).toNat - n := by
  have hc := cons.toNat_lt
  have hp := prod.toNat_lt
  simp only [UInt32.toNat_sub, UInt32.toNat_add, UInt32.toNat_ofNat'] at h ⊢
  omega

theorem distance_cell (hN : N ∣ 2 ^ 32) (cons prod : UInt32) :
    (cons.toNat + (prod - cons).toNat) % N = prod.toNat % N := by
  have hc := cons.toNat_lt
  have hp := prod.toNat_lt
  have hmod : (cons.toNat + (prod - cons).toNat) % 2 ^ 32 = prod.toNat := by
    simp only [UInt32.toNat_sub]
    omega
  rw [← Nat.mod_mod_of_dvd _ hN, hmod]

theorem content_follow (hN : N ∣ 2 ^ 32) (buf : Nat → α) (cons : UInt32) (n m : Nat) :
    content N buf (cons + UInt32.ofNat n).toNat m = content N buf (cons.toNat + n) m := by
  have hmod : (cons + UInt32.ofNat n).toNat = (cons.toNat + n) % 2 ^ 32 := by
    rw [UInt32.toNat_add, UInt32.toNat_ofNat', Nat.add_mod_mod]
  rw [hmod, content_mod hN]

theorem content_prod (hN : N ∣ 2 ^ 32) (buf : Nat → α) (cons prod : UInt32) (n : Nat) :
    content N buf (cons.toNat + (prod - cons).toNat) n = content N buf prod.toNat n := by
  rw [← content_mod (dvd_refl N), distance_cell hN, content_mod (dvd_refl N)]

/-- The producer: between two transfers, with its cells picked, or with them filled. -/
inductive Writer (α : Type) where
  | idle
  | loaded (off : Nat) (data : List α)
  | copied (data : List α)
  deriving DecidableEq

/-- The consumer: between two transfers, with its cells picked, or with them read. -/
inductive Reader (α : Type) where
  | idle
  | loaded (off n : Nat)
  | copied (data : List α)
  deriving DecidableEq

def Writer.Ok (N : Nat) (buf : Nat → α) (cons prod : UInt32) : Writer α → Prop
  | .idle => True
  | .loaded off data => off = prod.toNat % N ∧ (prod - cons).toNat + data.length ≤ N
  | .copied data =>
    (prod - cons).toNat + data.length ≤ N ∧ content N buf prod.toNat data.length = data

def Reader.Ok (N : Nat) (buf : Nat → α) (cons prod : UInt32) : Reader α → Prop
  | .idle => True
  | .loaded off n => off = cons.toNat % N ∧ n ≤ (prod - cons).toNat
  | .copied data =>
    data.length ≤ (prod - cons).toNat ∧ content N buf cons.toNat data.length = data

/-- Where the two sides stand, and what the finished transfers took and gave. -/
structure Link (α : Type) where
  writer : Writer α
  reader : Reader α
  sent : List α
  received : List α

def Link.start : Link α := ⟨.idle, .idle, [], []⟩

/-- What was sent is what was received and then what lies in the array. -/
structure Stream (N : Nat) (buf : Nat → α) (cons prod : UInt32) (w : Writer α) (r : Reader α)
    (sent received : List α) : Prop where
  size : N ∣ 2 ^ 32 ∧ N < 2 ^ 32
  bound : (prod - cons).toNat ≤ N
  carries : sent = received ++ content N buf cons.toNat (prod - cons).toNat
  writer : w.Ok N buf cons prod
  reader : r.Ok N buf cons prod

theorem Stream.start (hN : N ∣ 2 ^ 32 ∧ N < 2 ^ 32) (buf : Nat → α) {cons prod : UInt32}
    (h : prod = cons) : Stream N buf cons prod .idle .idle [] [] := by
  subst h
  exact ⟨hN, by simp, by simp [content], trivial, trivial⟩

section Steps

variable {buf : Nat → α} {cons prod : UInt32} {w : Writer α} {r : Reader α}
  {sent received : List α}

theorem Stream.unread (h : Stream N buf cons prod w r sent received) :
    received <+: sent ∧ sent.length = received.length + (prod - cons).toNat := by
  rw [h.carries]
  exact ⟨List.prefix_append _ _, by simp⟩

theorem Stream.pos (h : Stream N buf cons prod w r sent received) : 0 < N :=
  Nat.pos_of_dvd_of_pos h.size.1 (by decide)

/-- Only the cells of the array matter. -/
theorem Stream.congr {buf' : Nat → α} (h : Stream N buf cons prod w r sent received)
    (hbuf : ∀ i < N, buf' i = buf i) : Stream N buf' cons prod w r sent received := by
  have hcontent : ∀ start n, content N buf' start n = content N buf start n := by
    intro start n
    unfold content
    apply List.map_congr_left
    intro i _
    exact hbuf _ (Nat.mod_lt _ h.pos)
  refine ⟨h.size, h.bound, by rw [hcontent]; exact h.carries, ?_, ?_⟩
  · have hwriter := h.writer
    cases w with
    | idle => trivial
    | loaded => exact hwriter
    | copied => exact ⟨hwriter.1, by rw [hcontent]; exact hwriter.2⟩
  · have hreader := h.reader
    cases r with
    | idle => trivial
    | loaded => exact hreader
    | copied => exact ⟨hreader.1, by rw [hcontent]; exact hreader.2⟩

theorem Stream.loadWrite (h : Stream N buf cons prod w r sent received) {data : List α}
    (hfit : (prod - cons).toNat + data.length ≤ N) :
    Stream N buf cons prod (.loaded (prod.toNat % N) data) r sent received :=
  ⟨h.size, h.bound, h.carries, ⟨rfl, hfit⟩, h.reader⟩

theorem Stream.loadRead (h : Stream N buf cons prod w r sent received) {n : Nat}
    (hn : n ≤ (prod - cons).toNat) :
    Stream N buf cons prod w (.loaded (cons.toNat % N) n) sent received :=
  ⟨h.size, h.bound, h.carries, h.writer, ⟨rfl, hn⟩⟩

theorem Stream.copyIn {off : Nat} {data : List α} {buf' : Nat → α}
    (h : Stream N buf cons prod (.loaded off data) r sent received)
    (hnew : content N buf' cons.toNat ((prod - cons).toNat + data.length) =
      content N buf cons.toNat (prod - cons).toNat ++ data) :
    Stream N buf' cons prod (.copied data) r sent received := by
  rw [content_add] at hnew
  obtain ⟨hold, hdata⟩ := List.append_inj hnew (by simp)
  rw [content_prod h.size.1] at hdata
  refine ⟨h.size, h.bound, by rw [hold]; exact h.carries, ⟨h.writer.2, hdata⟩, ?_⟩
  have hreader := h.reader
  cases r with
  | idle => trivial
  | loaded => exact hreader
  | copied data' =>
    -- the elements being read lie before the cells that were filled
    obtain ⟨hle, hcells⟩ := hreader
    refine ⟨hle, ?_⟩
    rw [← Nat.add_sub_cancel' hle, content_add, content_add] at hold
    rw [(List.append_inj hold (by simp)).1, hcells]

theorem Stream.copyOut {off n : Nat}
    (h : Stream N buf cons prod w (.loaded off n) sent received) :
    Stream N buf cons prod w (.copied (content N buf cons.toNat n)) sent received :=
  ⟨h.size, h.bound, h.carries, h.writer, by simpa using h.reader.2, by simp⟩

theorem Stream.blitIn {off : Nat} {data : List α}
    (h : Stream N buf cons prod (.loaded off data) r sent received)
    (hend : off + data.length ≤ N) :
    Stream N (blit buf off data) cons prod (.copied data) r sent received := by
  obtain ⟨hoff, hfit⟩ := h.writer
  rw [← distance_cell h.size.1 cons] at hoff
  apply h.copyIn
  rw [hoff] at hend ⊢
  exact content_blit hfit hend

theorem Stream.sliceOut {off n : Nat}
    (h : Stream N buf cons prod w (.loaded off n) sent received) (hend : off + n ≤ N) :
    Stream N buf cons prod w (.copied (slice buf off n)) sent received := by
  have hoff := h.reader.1
  rw [hoff] at hend ⊢
  rw [slice_eq_content hend]
  exact h.copyOut

theorem Stream.blitTwoIn {off : Nat} {data : List α}
    (h : Stream N buf cons prod (.loaded off data) r sent received) :
    Stream N (blitTwo N buf off data) cons prod (.copied data) r sent received := by
  obtain ⟨hoff, hfit⟩ := h.writer
  rw [← distance_cell h.size.1 cons] at hoff
  apply h.copyIn
  rw [hoff]
  exact content_blitTwo h.pos hfit

theorem Stream.sliceTwoOut {off n : Nat}
    (h : Stream N buf cons prod w (.loaded off n) sent received) :
    Stream N buf cons prod w (.copied (sliceTwo N buf off n)) sent received := by
  obtain ⟨hoff, hn⟩ := h.reader
  rw [hoff, sliceTwo_eq_content h.pos (Nat.le_trans hn h.bound)]
  exact h.copyOut

theorem Stream.publishWrite {data : List α}
    (h : Stream N buf cons prod (.copied data) r sent received) :
    Stream N buf cons (prod + UInt32.ofNat data.length) .idle r (sent ++ data) received := by
  obtain ⟨hfit, hdata⟩ := h.writer
  have hdist := distance_advance h.size.2 hfit
  refine ⟨h.size, by omega, ?_, trivial, ?_⟩
  · rw [hdist, content_add, content_prod h.size.1, hdata, ← List.append_assoc, ← h.carries]
  · have hreader := h.reader
    cases r with
    | idle => trivial
    | loaded off n => exact ⟨hreader.1, by have := hreader.2; omega⟩
    | copied data' => exact ⟨by have := hreader.1; omega, hreader.2⟩

theorem Stream.publishRead {data : List α}
    (h : Stream N buf cons prod w (.copied data) sent received) :
    Stream N buf (cons + UInt32.ofNat data.length) prod w .idle sent (received ++ data) := by
  obtain ⟨hle, hdata⟩ := h.reader
  have hdist := distance_follow hle
  have hbound := h.bound
  refine ⟨h.size, by omega, ?_, ?_, trivial⟩
  · have hsplit := content_add N buf cons.toNat data.length ((prod - cons).toNat - data.length)
    rw [Nat.add_sub_cancel' hle, hdata] at hsplit
    rw [hdist, content_follow h.size.1, List.append_assoc, ← hsplit, ← h.carries]
  · have hwriter := h.writer
    cases w with
    | idle => trivial
    | loaded off d => exact ⟨hwriter.1, by have := hwriter.2; omega⟩
    | copied d => exact ⟨by have := hwriter.1; omega, hwriter.2⟩

end Steps

end Cyclic
