import Xenlib.DomFdtTree

/-!
The nodes of a domain's device tree by their paths: `fdt_path_offset` finds each processor and each
bank of memory.
-/

set_option autoImplicit false

namespace Xenlib.Libfdt

theorem nodenameEq_self (s : CString) : nodenameEq s s = true := by
  simp [nodenameEq]

/-- With its unit address a name is no other's. -/
theorem eq_of_nodenameEq {name s : CString} (hat : atSign ∈ s) (h : nodenameEq name s = true) :
    name = s := by
  rw [nodenameEq, Bool.and_eq_true, List.isPrefixOf_iff_prefix] at h
  obtain ⟨⟨rest, rfl⟩, hrest⟩ := h
  rw [List.drop_left] at hrest
  cases rest with
  | nil => exact List.append_nil s
  | cons c rest => simp [hat] at hrest

namespace FdtItems

variable {s : CString} {found : CString × FdtItems}

@[simp] theorem find_withProps (props : List FdtProperty) (content : FdtItems) :
    (withProps props content).find s = content.find s := by
  induction props with
  | nil => rfl
  | cons p props ih => exact ih

theorem find_append (items more : FdtItems) :
    (items.append more).find s = (items.find s).or (more.find s) := by
  induction items with
  | nil => rfl
  | property p next ih => exact ih
  | node name content next _ ih =>
    simp only [append, find]
    split
    · rfl
    · exact ih

theorem find_concat_cons (item : FdtItems) (items : List FdtItems) :
    (concat (item :: items)).find s = (item.find s).or ((concat items).find s) :=
  find_append item (concat items)

theorem find_concat {items : List FdtItems} (hin : ∃ item ∈ items, item.find s = some found)
    (hsame : ∀ item ∈ items, item.find s = none ∨ item.find s = some found) :
    (concat items).find s = some found := by
  induction items with
  | nil =>
    obtain ⟨item, hin, -⟩ := hin
    cases hin
  | cons item items ih =>
    rw [find_concat_cons]
    rcases hsame item List.mem_cons_self with hnone | hfound
    · rw [hnone, Option.none_or]
      refine ih ?_ fun other hother => hsame other (List.mem_cons_of_mem _ hother)
      obtain ⟨other, hother, hfound⟩ := hin
      rcases List.mem_cons.mp hother with rfl | hother
      · rw [hnone] at hfound
        cases hfound
      · exact ⟨other, hother, hfound⟩
    · rw [hfound, Option.some_or]

theorem find_concat_append (items more : List FdtItems)
    (hnone : ∀ item ∈ items, item.find s = none) :
    (concat (items ++ more)).find s = (concat more).find s := by
  induction items with
  | nil => rfl
  | cons item items ih =>
    rw [List.cons_append, find_concat_cons, hnone item List.mem_cons_self, Option.none_or]
    exact ih fun other hother => hnone other (List.mem_cons_of_mem _ hother)

theorem find_concat_append_left {items : List FdtItems} (more : List FdtItems)
    (h : (concat items).find s = some found) : (concat (items ++ more)).find s = some found := by
  induction items with
  | nil => cases h
  | cons item items ih =>
    rw [List.cons_append, find_concat_cons]
    rw [find_concat_cons] at h
    cases hitem : item.find s with
    | none =>
      rw [hitem, Option.none_or] at h
      rw [Option.none_or]
      exact ih h
    | some other =>
      rw [hitem, Option.some_or] at h
      rw [Option.some_or]
      exact h

end FdtItems

end Xenlib.Libfdt

namespace Xenlib.DomFdt

open Libfdt
open GuestRam (memSize ramBanks bankRanges xenPageSize)

def hexDigit (d : Nat) : CString := ascii [d.digitChar]

theorem hex_eq (n : Nat) : hex n = (if n < 16 then [] else hex (n / 16)) ++ hexDigit (n % 16) := by
  rw [hex, Nat.toDigits_eq_if (by decide)]
  split
  · rename_i h
    rw [Nat.mod_eq_of_lt h]
    rfl
  · exact List.filterMap_append

theorem hexDigit_spec : ∀ d < 16, (hexDigit d).length = 1 ∧ slash ∉ hexDigit d := by decide

theorem hexDigit_inj : ∀ d < 16, ∀ e < 16, hexDigit d = hexDigit e → d = e := by decide

theorem hex_ne_nil (n : Nat) : hex n ≠ [] := by
  intro h
  have hlen := congrArg List.length h
  rw [hex_eq, List.length_append, (hexDigit_spec _ (Nat.mod_lt n (by decide))).1] at hlen
  simp at hlen

theorem slash_not_mem_hex (n : Nat) : slash ∉ hex n := by
  induction n using Nat.strongRecOn with
  | ind n ih =>
    have hdigit := (hexDigit_spec _ (Nat.mod_lt n (by decide))).2
    rw [hex_eq, List.mem_append]
    split
    · simpa using hdigit
    · rintro (h | h)
      · exact ih (n / 16) (by omega) h
      · exact hdigit h

theorem hex_inj {m n : Nat} (h : hex m = hex n) : m = n := by
  induction m using Nat.strongRecOn generalizing n with
  | ind m ih =>
    have hm := Nat.mod_lt m (show 16 > 0 by decide)
    have hn := Nat.mod_lt n (show 16 > 0 by decide)
    rw [hex_eq m, hex_eq n] at h
    obtain ⟨hhead, hlast⟩ := List.append_inj' h
      ((hexDigit_spec _ hm).1.trans (hexDigit_spec _ hn).1.symm)
    have hmod := hexDigit_inj _ hm _ hn hlast
    by_cases hmlt : m < 16
    · by_cases hnlt : n < 16
      · omega
      · rw [if_pos hmlt, if_neg hnlt] at hhead
        exact absurd hhead.symm (hex_ne_nil _)
    · by_cases hnlt : n < 16
      · rw [if_neg hmlt, if_pos hnlt] at hhead
        exact absurd hhead (hex_ne_nil _)
      · rw [if_neg hmlt, if_neg hnlt] at hhead
        have hdiv := ih (m / 16) (by omega) hhead
        omega

def cpuName (i : Nat) : CString := cstr "cpu@" ++ hex (getMpdir i)

def memoryName (bankbase : Nat) : CString := cstr "memory@" ++ hex bankbase

theorem getMpdir_eq (i : Nat) : getMpdir i = i / 16 % 256 * 256 + i % 16 := by
  have hlow : i &&& 0x0f = i % 16 := Nat.and_two_pow_sub_one_eq_mod i 4
  have hhigh : i >>> 4 &&& 0xff = i / 16 % 256 := by
    rw [Nat.shiftRight_eq_div_pow]
    exact Nat.and_two_pow_sub_one_eq_mod (i / 16) 8
  have hlt : i % 16 < 2 ^ 8 := by omega
  rw [getMpdir, hlow, hhigh, Nat.or_comm, ← Nat.shiftLeft_add_eq_or_of_lt hlt, Nat.shiftLeft_eq]

theorem cpuName_eq_iff (i j : Nat) : cpuName i = cpuName j ↔ i % 4096 = j % 4096 := by
  have hmpdir : getMpdir i = getMpdir j ↔ i % 4096 = j % 4096 := by
    rw [getMpdir_eq, getMpdir_eq]
    omega
  rw [← hmpdir]
  constructor
  · intro h
    exact hex_inj (List.append_cancel_left h)
  · intro h
    rw [cpuName, h, cpuName]

section
variable {cfg : DomDtCfg} {major minor : UInt32} {pfdt : Option FdtBuf}
  {partialTree : Option FdtItems} {info : Except Int Nat} {gpaddrBits : Nat}

theorem find_leaf (name s : CString) (props : List FdtProperty) :
    (leaf name props).find s =
      if nodenameEq name s then some (name, .withProps props .nil) else none := rfl

theorem find_leaf_ne {name s : CString} (props : List FdtProperty) (hat : atSign ∈ s)
    (hne : name ≠ s) : (leaf name props).find s = none := by
  rw [find_leaf, if_neg fun h => hne (eq_of_nodenameEq hat h)]

theorem find_leaf_self (name : CString) (props : List FdtProperty) :
    (leaf name props).find name = some (name, .withProps props .nil) := by
  rw [find_leaf, if_pos (nodenameEq_self name)]

theorem atSign_mem_cpuName (i : Nat) : atSign ∈ cpuName i :=
  List.mem_append_left _ (by decide)

theorem atSign_mem_memoryName (bankbase : Nat) : atSign ∈ memoryName bankbase :=
  List.mem_append_left _ (by decide)

/-- The node is found by its name among the processors: those of the same name are the same. -/
theorem find_cpu {nrCpus i : Nat} (hi : i < nrCpus) :
    ∃ content, cpuNode i = .node (cpuName i) content .nil ∧
      (FdtItems.concat ((List.range nrCpus).map cpuNode)).find (cpuName i) =
        some (cpuName i, content) := by
  refine ⟨_, rfl, FdtItems.find_concat ?_ ?_⟩
  · exact ⟨cpuNode i, List.mem_map_of_mem (List.mem_range.mpr hi), find_leaf_self _ _⟩
  · intro item hitem
    obtain ⟨j, -, rfl⟩ := List.mem_map.mp hitem
    by_cases hname : cpuName j = cpuName i
    · have hmpdir : getMpdir j = getMpdir i := hex_inj (List.append_cancel_left hname)
      right
      rw [cpuNode, hmpdir]
      exact find_leaf_self _ _
    · exact Or.inl (find_leaf_ne _ (atSign_mem_cpuName i) hname)

theorem chosenNode_find {s : CString} (hs : nodenameEq (cstr "chosen") s = false)
    (cmdline : Option CString) : (chosenNode cmdline).find s = none := by
  cases cmdline with
  | none => rfl
  | some cmdline =>
    rw [chosenNode, find_leaf, hs]
    rfl

theorem find_cpus : (domainTree cfg major minor partialTree gpaddrBits).find (cstr "cpus") =
    some (cstr "cpus", .withProps [cellProp "#address-cells" 1, cellProp "#size-cells" 0]
      (.concat ((List.range cfg.numVcpus).map cpuNode))) := by
  have hchosen := chosenNode_find (s := cstr "cpus") (by decide) cfg.cmdline
  rw [domainTree, FdtItems.find_withProps, List.append_assoc, List.append_assoc]
  refine FdtItems.find_concat_append_left _ ?_
  rw [FdtItems.find_concat_cons, hchosen, Option.none_or, FdtItems.find_concat_cons]
  rfl

theorem bankRanges_base {size : Nat} {r r' : Nat × Nat} (hr : r ∈ bankRanges ramBanks size)
    (hr' : r' ∈ bankRanges ramBanks size) (hbase : r.1 = r'.1) : r = r' := by
  have hdistinct : GuestRam.ram0Base ≠ GuestRam.ram1Base := by decide
  simp only [ramBanks, bankRanges] at hr hr'
  split_ifs at hr hr'
  · rcases List.mem_pair.mp hr with rfl | rfl <;> rcases List.mem_pair.mp hr' with rfl | rfl
    · rfl
    · exact absurd hbase hdistinct
    · exact absurd hbase.symm hdistinct
    · rfl
  · rw [List.mem_singleton.mp hr, List.mem_singleton.mp hr']
  · cases hr

theorem nodenameEq_memory {name : CString} (hhead : name.head? ≠ (cstr "memory@").head?)
    (bankbase : Nat) : nodenameEq name (memoryName bankbase) = false := by
  rw [Bool.eq_false_iff]
  intro h
  rw [eq_of_nodenameEq (atSign_mem_memoryName bankbase) h] at hhead
  exact hhead rfl

theorem find_memory {r : Nat × Nat}
    (hr : r ∈ bankRanges ramBanks (memSize cfg.toXenDomainCfg)) :
    ∃ content, memoryNode r = .node (memoryName r.1) content .nil ∧
      (domainTree cfg major minor partialTree gpaddrBits).find (memoryName r.1) =
        some (memoryName r.1, content) := by
  refine ⟨_, rfl, ?_⟩
  rw [domainTree, FdtItems.find_withProps, List.append_assoc, List.append_assoc,
    FdtItems.find_concat_append]
  · refine FdtItems.find_concat_append_left _ (FdtItems.find_concat ?_ ?_)
    · exact ⟨memoryNode r, List.mem_map_of_mem hr, find_leaf_self _ _⟩
    · intro item hitem
      obtain ⟨r', hr', rfl⟩ := List.mem_map.mp hitem
      by_cases hname : memoryName r'.1 = memoryName r.1
      · obtain rfl := bankRanges_base hr' hr (hex_inj (List.append_cancel_left hname))
        exact Or.inr (find_leaf_self _ _)
      · exact Or.inl (find_leaf_ne _ (atSign_mem_memoryName r.1) hname)
  · intro item hitem
    simp only [List.mem_cons, List.not_mem_nil, or_false] at hitem
    rcases hitem with rfl | rfl | rfl
    · exact chosenNode_find (nodenameEq_memory (by decide) r.1) cfg.cmdline
    · rw [cpusNode, FdtItems.find, nodenameEq_memory (by decide) r.1]
      rfl
    · rw [psciNode, find_leaf, nodenameEq_memory (by decide) r.1]
      rfl

theorem components_cpu (i : Nat) : Components [cstr "cpus", cpuName i] := by
  intro name hname
  simp only [List.mem_cons, List.not_mem_nil, or_false] at hname
  rcases hname with rfl | rfl
  · decide
  · refine ⟨List.ne_nil_of_mem (atSign_mem_cpuName i), fun h => ?_⟩
    rcases List.mem_append.mp h with h | h
    · exact absurd h (by decide)
    · exact slash_not_mem_hex _ h

theorem components_memory (bankbase : Nat) : Components [memoryName bankbase] := by
  intro name hname
  obtain rfl := List.mem_singleton.mp hname
  refine ⟨List.ne_nil_of_mem (atSign_mem_memoryName bankbase), fun h => ?_⟩
  rcases List.mem_append.mp h with h | h
  · exact absurd h (by decide)
  · exact slash_not_mem_hex _ h

def Finds (fdt : FdtBuf) (path : List CString) (node : FdtItems) : Prop :=
  ∃ name content, node = .node name content .nil ∧
    LeadsTo fdt (fdtPathOffset fdt (renderPath path)) (some (name, content))

theorem Finds.of_lookup {fdt : FdtBuf} {tree node content : FdtItems} {path : List CString}
    {name : CString} (h : Enumerated fdt tree) (hpath : Components path) (hne : path ≠ [])
    (hnode : node = .node name content .nil)
    (hfind : FdtItems.lookup path ([], tree) = some (name, content)) : Finds fdt path node := by
  have habs : xenstoreIsAbsPath (renderPath path) = true := by
    obtain ⟨t, path, rfl⟩ := List.exists_cons_of_ne_nil hne
    rfl
  have hlookup := h.paths (renderPath path) habs
  rw [tokens_renderPath hpath, hfind] at hlookup
  exact ⟨name, content, hnode, hlookup⟩

theorem finds_cpu {fdt : FdtBuf} {i : Nat}
    (h : Enumerated fdt (domainTree cfg major minor partialTree gpaddrBits))
    (hi : i < cfg.numVcpus) : Finds fdt [cstr "cpus", cpuName i] (cpuNode i) := by
  obtain ⟨content, hnode, hfind⟩ := find_cpu hi
  refine Finds.of_lookup h (components_cpu i) (List.cons_ne_nil _ _) hnode ?_
  simp only [FdtItems.lookup, find_cpus, Option.bind_some, FdtItems.find_withProps, hfind]

theorem finds_memory {fdt : FdtBuf} {r : Nat × Nat}
    (h : Enumerated fdt (domainTree cfg major minor partialTree gpaddrBits))
    (hr : r ∈ bankRanges ramBanks (memSize cfg.toXenDomainCfg)) :
    Finds fdt [memoryName r.1] (memoryNode r) := by
  obtain ⟨content, hnode, hfind⟩ := @find_memory cfg major minor partialTree gpaddrBits r hr
  refine Finds.of_lookup h (components_memory r.1) (List.cons_ne_nil _ _) hnode ?_
  simp only [FdtItems.lookup, hfind, Option.bind_some]

theorem Finds.name_eq {fdt : FdtBuf} {path path' : List CString} {name name' : CString}
    {content content' : FdtItems} (h : Finds fdt path (.node name content .nil))
    (h' : Finds fdt path' (.node name' content' .nil))
    (hoff : fdtPathOffset fdt (renderPath path) = fdtPathOffset fdt (renderPath path')) :
    name = name' := by
  obtain ⟨_, _, heq, n, hn, hat⟩ := h
  obtain ⟨_, _, heq', n', hn', hat'⟩ := h'
  cases heq
  cases heq'
  rw [hoff, hn'] at hn
  cases hn
  exact hat.name.symm.trans hat'.name

theorem finds_cpu_iff {fdt : FdtBuf} {i j : Nat}
    (h : Enumerated fdt (domainTree cfg major minor partialTree gpaddrBits))
    (hi : i < cfg.numVcpus) (hj : j < cfg.numVcpus) :
    fdtPathOffset fdt (renderPath [cstr "cpus", cpuName i]) =
      fdtPathOffset fdt (renderPath [cstr "cpus", cpuName j]) ↔ i % 4096 = j % 4096 := by
  rw [← cpuName_eq_iff]
  constructor
  · exact fun hoff => Finds.name_eq (finds_cpu h hi) (finds_cpu h hj) hoff
  · intro hname
    rw [hname]

end

end Xenlib.DomFdt
