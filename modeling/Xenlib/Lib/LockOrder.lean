import Mathlib.Logic.Relation
import Mathlib.Logic.Function.Basic

/-!
Threads that take recursive mutexes in the order of a rank. A program is what a function does
with the mutexes: it takes them, with or without a deadline, gives them back, and calls other
functions. Whatever else it computes shows in the branches that it takes.
-/

set_option autoImplicit false

namespace LockOrder

inductive Prog (L F : Type) where
  | done
  | lock (l : L) (next : Prog L F)
  /-- An attempt with a deadline, which may pass. -/
  | lockDeadline (l : L) (next late : Prog L F)
  | unlock (l : L) (next : Prog L F)
  | branch (left right : Prog L F)
  | call (f : F) (next : Prog L F)
  | loop (body next : Prog L F)
  /-- Calls of functions that somebody else chooses among those of `api`. -/
  | callbacks (next : Prog L F)

inductive Event (L : Type) where
  | lock (l : L)
  | timeout (l : L)
  | unlock (l : L)
  | call
  | ret
  deriving DecidableEq, Repr

section Programs
variable {L F : Type} (body : F → Prog L F) (api : F → Prop)

/-- What a run of the program does. -/
inductive Traces : Prog L F → List (Event L) → Prop where
  | done : Traces .done []
  | lock {l : L} {p : Prog L F} {t : List (Event L)} (h : Traces p t) :
      Traces (.lock l p) (.lock l :: t)
  | inTime {l : L} {p q : Prog L F} {t : List (Event L)} (h : Traces p t) :
      Traces (.lockDeadline l p q) (.lock l :: t)
  | late {l : L} {p q : Prog L F} {t : List (Event L)} (h : Traces q t) :
      Traces (.lockDeadline l p q) (.timeout l :: t)
  | unlock {l : L} {p : Prog L F} {t : List (Event L)} (h : Traces p t) :
      Traces (.unlock l p) (.unlock l :: t)
  | left {p q : Prog L F} {t : List (Event L)} (h : Traces p t) : Traces (.branch p q) t
  | right {p q : Prog L F} {t : List (Event L)} (h : Traces q t) : Traces (.branch p q) t
  | call {f : F} {p : Prog L F} {t u : List (Event L)} (hf : Traces (body f) t) (h : Traces p u) :
      Traces (.call f p) (.call :: t ++ .ret :: u)
  | loopDone {b p : Prog L F} {t : List (Event L)} (h : Traces p t) : Traces (.loop b p) t
  | loopMore {b p : Prog L F} {t u : List (Event L)} (hb : Traces b t)
      (h : Traces (.loop b p) u) : Traces (.loop b p) (t ++ u)
  | callbacksDone {p : Prog L F} {t : List (Event L)} (h : Traces p t) : Traces (.callbacks p) t
  | callback {f : F} {p : Prog L F} {t u : List (Event L)} (hapi : api f)
      (hf : Traces (body f) t) (h : Traces (.callbacks p) u) :
      Traces (.callbacks p) (.call :: t ++ .ret :: u)

end Programs

structure Thread (L : Type) where
  /-- The mutexes it holds, as often as it took them. -/
  held : List L
  /-- What it held when it called the functions that it is in. -/
  frames : List (List L)
  rest : List (Event L)

def Thread.idle {L : Type} : Thread L := ⟨[], [], []⟩

section Threads
variable {T L F : Type} [DecidableEq T] [DecidableEq L] (body : F → Prog L F) (api : F → Prop)

inductive Step (s : T → Thread L) : (T → Thread L) → Prop where
  /-- A thread that does nothing calls a function. -/
  | start (t : T) (f : F) (trace : List (Event L)) (hidle : (s t).rest = [])
      (h : Traces body api (body f) trace) :
      Step s (Function.update s t { s t with rest := .call :: trace ++ [.ret] })
  /-- A mutex is taken when no other thread has it. -/
  | lock (t : T) (l : L) (rest : List (Event L)) (h : (s t).rest = .lock l :: rest)
      (hfree : ∀ t', t' ≠ t → l ∉ (s t').held) :
      Step s (Function.update s t { s t with held := l :: (s t).held, rest := rest })
  | timeout (t : T) (l : L) (rest : List (Event L)) (h : (s t).rest = .timeout l :: rest) :
      Step s (Function.update s t { s t with rest := rest })
  | unlock (t : T) (l : L) (rest : List (Event L)) (h : (s t).rest = .unlock l :: rest) :
      Step s (Function.update s t { s t with held := (s t).held.erase l, rest := rest })
  | call (t : T) (rest : List (Event L)) (h : (s t).rest = .call :: rest) :
      Step s (Function.update s t { s t with frames := (s t).held :: (s t).frames, rest := rest })
  | ret (t : T) (rest : List (Event L)) (h : (s t).rest = .ret :: rest) :
      Step s (Function.update s t { s t with frames := (s t).frames.tail, rest := rest })

/-- States that any interleaving of the threads reaches. -/
def Reachable (s : T → Thread L) : Prop :=
  Relation.ReflTransGen (Step body api) (fun _ => Thread.idle) s

end Threads

/-- The thread is about to take the mutex, or to try, and does not have it. -/
def Wants {T L : Type} (s : T → Thread L) (t : T) (l : L) : Prop :=
  (∃ rest, (s t).rest = .lock l :: rest ∨ (s t).rest = .timeout l :: rest) ∧ l ∉ (s t).held

def Waits {T L : Type} (s : T → Thread L) (t t' : T) : Prop :=
  ∃ l, Wants s t l ∧ t' ≠ t ∧ l ∈ (s t').held

section Discipline
variable {L F : Type} [DecidableEq L] (rank : L → Nat)

/-- The mutex is held already, or it comes after all that are. -/
def May (held : List L) (l : L) : Prop := l ∈ held ∨ ∀ h ∈ held, rank h < rank l

/-- The events keep to the order, every function returns with what it was called with, and at
the end nothing is held. -/
def Disciplined : List L → List (List L) → List (Event L) → Prop
  | held, frames, [] => held = [] ∧ frames = []
  | held, frames, .lock l :: t => May rank held l ∧ Disciplined (l :: held) frames t
  | held, frames, .timeout l :: t => May rank held l ∧ Disciplined held frames t
  | held, frames, .unlock l :: t => l ∈ held ∧ Disciplined (held.erase l) frames t
  | held, frames, .call :: t => Disciplined held (held :: frames) t
  | held, frames, .ret :: t =>
    match frames with
    | [] => False
    | h :: frames => held = h ∧ Disciplined held frames t

/-- A program that starts with `held` keeps to the order and ends with `final`. A function may be
called with what `pre` allows. -/
def Ok (api : F → Prop) (pre : F → List L → Prop) : Prog L F → List L → List L → Prop
  | .done, held, final => held = final
  | .lock l p, held, final => May rank held l ∧ Ok api pre p (l :: held) final
  | .lockDeadline l p q, held, final =>
    May rank held l ∧ Ok api pre p (l :: held) final ∧ Ok api pre q held final
  | .unlock l p, held, final => l ∈ held ∧ Ok api pre p (held.erase l) final
  | .branch p q, held, final => Ok api pre p held final ∧ Ok api pre q held final
  | .call f p, held, final => pre f held ∧ Ok api pre p held final
  | .loop b p, held, final => Ok api pre b held held ∧ Ok api pre p held final
  | .callbacks p, held, final => (∀ f, api f → pre f held) ∧ Ok api pre p held final

variable {rank} {body : F → Prog L F} {api : F → Prop} {pre : F → List L → Prop}

theorem disciplined_append (hbody : ∀ f held, pre f held → Ok rank api pre (body f) held held)
    {p : Prog L F} {t : List (Event L)} (ht : Traces body api p t) {held final : List L}
    (hp : Ok rank api pre p held final) {frames : List (List L)} {u : List (Event L)}
    (hu : Disciplined rank final frames u) : Disciplined rank held frames (t ++ u) := by
  induction ht generalizing held final frames u with
  | done =>
    cases hp
    exact hu
  | lock _ ih => exact ⟨hp.1, ih hp.2 hu⟩
  | inTime _ ih => exact ⟨hp.1, ih hp.2.1 hu⟩
  | late _ ih => exact ⟨hp.1, ih hp.2.2 hu⟩
  | unlock _ ih => exact ⟨hp.1, ih hp.2 hu⟩
  | left _ ih => exact ih hp.1 hu
  | right _ ih => exact ih hp.2 hu
  | call _ _ ihf ih =>
    rw [List.append_assoc, List.cons_append, List.cons_append]
    exact ihf (hbody _ _ hp.1) ⟨rfl, ih hp.2 hu⟩
  | loopDone _ ih => exact ih hp.2 hu
  | loopMore _ _ ihb ih =>
    rw [List.append_assoc]
    exact ihb hp.1 (ih hp hu)
  | callbacksDone _ ih => exact ih hp.2 hu
  | callback hapi _ _ ihf ih =>
    rw [List.append_assoc, List.cons_append, List.cons_append]
    exact ihf (hbody _ _ (hp.1 _ hapi)) ⟨rfl, ih hp hu⟩

section Runs
variable {T : Type} {s s' : T → Thread L}

/-- Every thread of the state keeps to the order from here on. -/
def InOrder (rank : L → Nat) (s : T → Thread L) : Prop :=
  ∀ t, Disciplined rank (s t).held (s t).frames (s t).rest

theorem InOrder.update [DecidableEq T] (h : InOrder rank s) {t : T} {thread : Thread L}
    (ht : Disciplined rank thread.held thread.frames thread.rest) :
    InOrder rank (Function.update s t thread) := by
  intro t'
  by_cases heq : t' = t
  · subst heq
    rw [Function.update_self]
    exact ht
  · rw [Function.update_of_ne heq]
    exact h t'

theorem InOrder.step [DecidableEq T]
    (hbody : ∀ f held, pre f held → Ok rank api pre (body f) held held)
    (hpre : ∀ f, pre f []) (h : InOrder rank s) (hs : Step body api s s') :
    InOrder rank s' := by
  cases hs with
  | start t f trace hidle htrace =>
    have ht := h t
    rw [hidle] at ht
    obtain ⟨hheld, hframes⟩ := ht
    refine h.update ?_
    show Disciplined rank (s t).held ((s t).held :: (s t).frames) (trace ++ [.ret])
    rw [hheld, hframes]
    exact disciplined_append hbody htrace (hbody f [] (hpre f)) ⟨rfl, rfl, rfl⟩
  | lock t l rest hrest _ =>
    have ht := h t
    rw [hrest] at ht
    exact h.update ht.2
  | timeout t l rest hrest =>
    have ht := h t
    rw [hrest] at ht
    exact h.update ht.2
  | unlock t l rest hrest =>
    have ht := h t
    rw [hrest] at ht
    exact h.update ht.2
  | call t rest hrest =>
    have ht := h t
    rw [hrest] at ht
    exact h.update ht
  | ret t rest hrest =>
    have ht := h t
    rw [hrest] at ht
    unfold Disciplined at ht
    split at ht
    · exact ht.elim
    · rename_i hframes
      refine h.update ?_
      rw [hframes]
      exact ht.2

theorem Reachable.inOrder [DecidableEq T]
    (hbody : ∀ f held, pre f held → Ok rank api pre (body f) held held)
    (hpre : ∀ f, pre f []) (h : Reachable body api s) : InOrder rank s := by
  induction h with
  | refl => exact fun _ => ⟨rfl, rfl⟩
  | tail _ hs ih => exact ih.step hbody hpre hs

theorem InOrder.wants (h : InOrder rank s) {t : T} {l : L} (hw : Wants s t l) :
    ∀ m ∈ (s t).held, rank m < rank l := by
  obtain ⟨⟨rest, hrest⟩, hnot⟩ := hw
  have ht := h t
  have hmay : May rank (s t).held l := by
    rcases hrest with hrest | hrest <;> rw [hrest] at ht <;> exact ht.1
  exact hmay.resolve_left hnot

/-- Along a chain of threads that wait for each other the mutexes go up. -/
theorem InOrder.chain (h : InOrder rank s) {t t' : T} (hw : Relation.TransGen (Waits s) t t')
    {l : L} (hl : Wants s t l) : ∃ m ∈ (s t').held, rank l ≤ rank m := by
  induction hw with
  | single hw =>
    obtain ⟨m, hm, _, hheld⟩ := hw
    -- a thread wants one mutex at a time
    have hone : m = l := by
      obtain ⟨⟨rest, hrest⟩, _⟩ := hl
      obtain ⟨⟨rest', hrest'⟩, _⟩ := hm
      rcases hrest with hrest | hrest <;> rcases hrest' with hrest' | hrest' <;>
        rw [hrest] at hrest' <;> cases hrest' <;> rfl
    exact ⟨m, hheld, hone ▸ Nat.le_refl _⟩
  | tail _ hlast ih =>
    obtain ⟨m, hm, hle⟩ := ih
    obtain ⟨m', hm', _, hheld⟩ := hlast
    exact ⟨m', hheld, Nat.le_trans hle (Nat.le_of_lt (h.wants hm' m hm))⟩

/-- No thread waits for itself, however long the way round. -/
theorem InOrder.acyclic (h : InOrder rank s) (t : T) : ¬ Relation.TransGen (Waits s) t t := by
  intro hw
  obtain ⟨t', ⟨l, hl, _⟩, _⟩ := Relation.TransGen.head'_iff.mp hw
  obtain ⟨m, hm, hle⟩ := h.chain hw hl
  exact absurd (h.wants hl m hm) (Nat.not_lt.mpr hle)

theorem InOrder.returns (h : InOrder rank s) {t : T} {rest : List (Event L)}
    (hret : (s t).rest = .ret :: rest) : ∃ frames, (s t).frames = (s t).held :: frames := by
  have ht := h t
  rw [hret] at ht
  unfold Disciplined at ht
  split at ht
  · exact ht.elim
  · rename_i m frames hframes
    exact ⟨frames, by rw [hframes, ht.1]⟩

theorem InOrder.idle (h : InOrder rank s) {t : T} (hidle : (s t).rest = []) : (s t).held = [] := by
  have ht := h t
  rw [hidle] at ht
  exact ht.1

end Runs

end Discipline

end LockOrder
