import Xenlib.PathGrammar
import Xenlib.Spelling

/-!
`xenstore_path_contains` as an order. It looks at the text of two paths only; on the paths
`construct_path` gives, that is the order of the nodes in the tree.
-/

set_option autoImplicit false

namespace Xenlib

open Keyed

/-- A path as `construct_path` leaves it in its buffer, which has room for the directories of
domains up to 32767. Behind a longer directory the text may be cut off, and where that leaves
a '/' at its end it is no path any more. -/
def Constructed (path : CString) : Prop :=
  ∃ payload domid allocs rest, constructPath payload domid allocs = .ok (.ok path, rest) ∧
    (domid.toNat ≤ 32767 ∨ path.getLast? ≠ some slash)

-- "a" of a domain whose directory already fills the buffer.
example : constructPath (ascii ['a']) 1000000 [] = .ok (.ok (localDomainPath 1000000), []) := by
  decide

theorem resolvePath_of_constructPath {payload path : CString} {domid : UInt32}
    {allocs rest : List Bool} (h : constructPath payload domid allocs = .ok (.ok path, rest)) :
    resolvePath payload domid = .ok path := by
  have hspec : Wp.wp (constructPath payload domid)
      (fun r _ => r = .ok path → resolvePath payload domid = .ok path) (fun _ => True) allocs :=
    wp_constructPath (fun _ _ hr => hr) (fun _ _ _ hr => by cases hr)
  exact Wp.wp_ok hspec h rfl

theorem Constructed.canonical {path : CString} (h : Constructed path) : Canonical path := by
  obtain ⟨payload, domid, allocs, rest, hrun, hend⟩ := h
  have hres := resolvePath_of_constructPath hrun
  by_cases hr : path = [slash]
  · subst hr
    decide
  · cases hend with
    | inl hd =>
      have hdir := localDomainPath_length hd
      exact canonical_of_resolvePath (by rw [xenstoreMaxLocalpathLen]; omega) hres
    | inr hlast => exact (resolvePath_spelled hres hr).2 hlast

theorem Constructed.length {path : CString} (h : Constructed path) :
    path.length ≤ xenstoreAbsPathMax := by
  obtain ⟨payload, domid, allocs, rest, hrun, -⟩ := h
  by_cases hr : path = [slash]
  · subst hr
    decide
  · exact (Normalized.tokens_ne_nil ⟨payload, domid, resolvePath_of_constructPath hrun⟩ hr).2

theorem constructed_root : Constructed [slash] :=
  ⟨[slash], 0, [], [], by decide, Or.inl (by decide)⟩

/-- A resolved path. -/
@[ext] structure StorePath where
  text : CString
  constructed : Constructed text

namespace StorePath

variable {p q r : StorePath}

def components (p : StorePath) : List CString := tokens p.text

instance : LE StorePath := ⟨fun p q => xenstorePathContains p.text q.text = true⟩

theorem components_injective : Function.Injective components := by
  intro p q h
  have hp : renderPath p.components = p.text := p.constructed.canonical
  have hq : renderPath q.components = q.text := q.constructed.canonical
  ext1
  rw [← hp, ← hq, h]

theorem le_iff : p ≤ q ↔ p.components <+: q.components :=
  p.constructed.canonical.contains_iff q.constructed.canonical

instance : PartialOrder StorePath where
  le_refl p := le_iff.mpr List.prefix_rfl
  le_trans p q r hpq hqr := le_iff.mpr ((le_iff.mp hpq).trans (le_iff.mp hqr))
  le_antisymm p q hpq hqr := by
    have hlen := (le_iff.mp hqr).length_le
    exact components_injective ((le_iff.mp hpq).eq_of_length_le hlen)

instance : OrderBot StorePath where
  bot := ⟨[slash], constructed_root⟩
  bot_le _ := le_iff.mpr List.nil_prefix

theorem ancestors_total (hp : p ≤ r) (hq : q ≤ r) : p ≤ q ∨ q ≤ p := by
  rw [le_iff] at hp hq
  rw [le_iff, le_iff]
  exact List.prefix_or_prefix_of_prefix hp hq

theorem foundEntry_eq (root : XsEntry) (p : StorePath) :
    foundEntry root p.text = (root.lookup p.components).map fun e => ⟨p.components, e⟩ :=
  foundEntry_canonical p.constructed.canonical p.constructed.length

theorem foundEntry_of_le {root : XsEntry} {e : EntryRef} (h : p ≤ q)
    (he : foundEntry root q.text = some e) :
    ∃ a rest, foundEntry root p.text = some a ∧ e.path = a.path ++ rest ∧
      a.entry.lookup rest = some e.entry := by
  obtain ⟨rest, hrest⟩ := le_iff.mp h
  rw [foundEntry_eq, Option.map_eq_some_iff] at he
  obtain ⟨n, hn, rfl⟩ := he
  rw [← hrest, Tree.lookup_append, Option.bind_eq_some_iff] at hn
  obtain ⟨m, hm, hn⟩ := hn
  refine ⟨⟨p.components, m⟩, rest, ?_, hrest.symm, hn⟩
  rw [foundEntry_eq, hm]
  rfl

/-- A path contains another exactly where no store has the node of the other without its own. -/
theorem le_iff_found :
    p ≤ q ↔ ∀ root, WellFormed root → (foundEntry root q.text).isSome →
      (foundEntry root p.text).isSome := by
  constructor
  · intro h root _ hq
    obtain ⟨e, he⟩ := Option.isSome_iff_exists.mp hq
    obtain ⟨a, rest, ha, -⟩ := foundEntry_of_le h he
    rw [ha]
    rfl
  · intro h
    obtain ⟨e, he, -⟩ := @openTree_lookup q.components q.components List.prefix_rfl
    have hp := h (openTree q.components) (openTree_wellFormed (components_tokens q.text)) (by
      rw [foundEntry_eq, he]
      rfl)
    rw [foundEntry_eq, Option.isSome_map] at hp
    exact le_iff.mpr (openTree_lookup_isSome.mp hp)

end StorePath

/-- On the paths of `construct_path`, `xenstore_path_contains` compares components, and so is
a partial order in which the ancestors of a path lie on one line. -/
theorem xenstorePathContains_order {a b c : CString} (ha : Constructed a) (hb : Constructed b)
    (hc : Constructed c) :
    (xenstorePathContains a b = true ↔ tokens a <+: tokens b) ∧
      xenstorePathContains a a = true ∧
      (xenstorePathContains a b = true → xenstorePathContains b c = true →
        xenstorePathContains a c = true) ∧
      (xenstorePathContains a b = true → xenstorePathContains b a = true → a = b) ∧
      (xenstorePathContains a c = true → xenstorePathContains b c = true →
        xenstorePathContains a b = true ∨ xenstorePathContains b a = true) := by
  let p : StorePath := ⟨a, ha⟩
  let q : StorePath := ⟨b, hb⟩
  let r : StorePath := ⟨c, hc⟩
  refine ⟨@StorePath.le_iff p q, le_refl p, ?_, ?_, @StorePath.ancestors_total p q r⟩
  · intro hab hbc
    exact @le_trans _ _ p q r hab hbc
  · intro hab hba
    exact congrArg StorePath.text (@le_antisymm _ _ p q hab hba)

/-- "/local", domain 0's "x" and domain 7's "/local/domain/0/x/y". -/
theorem xenstorePathContains_order_three :
    (xenstorePathContains (ascii ['/', 'l', 'o', 'c', 'a', 'l'])
      (localDomainPath 0 ++ ascii ['x']) = true ↔
        tokens (ascii ['/', 'l', 'o', 'c', 'a', 'l']) <+:
          tokens (localDomainPath 0 ++ ascii ['x'])) ∧
      xenstorePathContains (ascii ['/', 'l', 'o', 'c', 'a', 'l'])
        (localDomainPath 0 ++ ascii ['x', '/', 'y']) = true := by
  have h := @xenstorePathContains_order (ascii ['/', 'l', 'o', 'c', 'a', 'l'])
    (localDomainPath 0 ++ ascii ['x']) (localDomainPath 0 ++ ascii ['x', '/', 'y'])
    ⟨ascii ['/', 'l', 'o', 'c', 'a', 'l'], 7, [], [], by decide, Or.inl (by decide)⟩
    ⟨ascii ['x'], 0, [], [], by decide, Or.inl (by decide)⟩
    ⟨localDomainPath 0 ++ ascii ['x', '/', 'y'], 7, [], [], by decide, Or.inl (by decide)⟩
  exact ⟨h.1, h.2.2.1 (by decide) (by decide)⟩

end Xenlib
