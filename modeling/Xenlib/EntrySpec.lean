import Xenlib.Entry

/-!
What the functions on the node tree do. Everything later proofs need to know about a
write is in `WriteOutcome`, and about a lookup in `wp_keyToEntry`.
-/

set_option autoImplicit false

namespace Xenlib

open Keyed Wp

def PermsOk (t : XsEntry) : Prop := t.label.perms ≠ [] ∧ t.children.All fun _ n => n.perms ≠ []

/-- The representation invariant of the store. -/
structure WellFormed (root : XsEntry) : Prop where
  rootPerms : root.label.perms ≠ []
  nodes : root.children.All fun key node => (key ≠ [] ∧ slash ∉ key) ∧ node.perms ≠ []
  distinct : root.children.Distinct

theorem WellFormed.permsOk {root : XsEntry} (h : WellFormed root) : PermsOk root :=
  ⟨h.rootPerms, h.nodes.imp fun _ _ hn => hn.2⟩

theorem PermsOk.find? {t s : XsEntry} {k : CString} (h : PermsOk t)
    (hs : t.children.find? k = some s) : PermsOk s := h.2.find? hs

theorem PermsOk.lookup {t s : XsEntry} {p : List CString} (h : PermsOk t)
    (hs : t.lookup p = some s) : PermsOk s := by
  induction p generalizing t with
  | nil => cases hs; exact h
  | cons k ks ih =>
    cases hk : t.children.find? k with
    | none => simp [Tree.lookup_cons, hk] at hs
    | some r =>
      simp only [Tree.lookup_cons, hk, Option.bind_some] at hs
      exact ih (h.find? hk) hs

/-- `check_perms` lets `domid` write. -/
def Grants (node : XsNode) (domid : UInt32) : Prop := checkPerms node .write domid = .ok true

theorem checkPerms_congr {node node' : XsNode} (h : node.perms = node'.perms) (perms : XsPerm)
    (caller : UInt32) : checkPerms node perms caller = checkPerms node' perms caller := by
  unfold checkPerms isOwner
  rw [h]

/-- The head of the list is only missed where the list is empty. -/
theorem checkPerms_ok {node : XsNode} (h : node.perms ≠ []) (perms : XsPerm) (domid : UInt32) :
    ∃ b, checkPerms node perms domid = .ok b := by
  unfold checkPerms
  split
  · exact ⟨true, rfl⟩
  · split
    · exact ⟨_, rfl⟩
    · cases hp : node.perms with
      | nil => exact absurd hp h
      | cons p ps => exact ⟨_, rfl⟩

theorem checkPerms_error {node : XsNode} {perms : XsPerm} {domid : UInt32} {e : Fault}
    (h : checkPerms node perms domid = .error e) : node.perms = [] := by
  by_contra hn
  obtain ⟨b, hb⟩ := checkPerms_ok hn perms domid
  rw [hb] at h
  cases h

theorem checkPerms_fault {node : XsNode} {perms : XsPerm} {domid : UInt32} {e : Fault}
    (h : checkPerms node perms domid = .error e) : e = .emptyPerms := by
  have hn := checkPerms_error h
  simp only [checkPerms, isOwner, hn, List.head?_nil, Option.any_none, Bool.or_false,
    List.find?_nil] at h
  split at h <;> cases h
  rfl

theorem checkPerms_none {node : XsNode} (h : node.perms ≠ []) (domid : UInt32) :
    checkPerms node .none domid = .ok true := by
  unfold checkPerms
  split
  · rfl
  · split
    · rw [XsPerm.allows_none]
    · cases hp : node.perms with
      | nil => exact absurd hp h
      | cons p ps => simp only [List.head?_cons, XsPerm.allows_none]

/-- What `key_to_entry` finds when its buffer can be allocated. -/
def foundEntry (root : XsEntry) (key : CString) : Option EntryRef :=
  if key.length > xenstoreAbsPathMax then none
  else if xenstoreIsRootPath key then some ⟨[], root⟩
  else entryAt root (tokens key)

@[simp] theorem keyToEntry_nil (root : XsEntry) (key : CString) :
    keyToEntry root key [] = .ok (foundEntry root key, []) := by
  unfold keyToEntry foundEntry
  split
  · rfl
  · split <;> rfl

theorem wp_keyToEntry {root : XsEntry} {key : CString} {Q : Option EntryRef → List Bool → Prop}
    {E : Fault → Prop} {allocs : List Bool}
    (hfound : ∀ rest, rest <:+ allocs → Q (foundEntry root key) rest)
    (hmem : ∀ rest, rest <:+ allocs → false ∈ allocs → Q none rest) :
    wp (keyToEntry root key) Q E allocs := by
  unfold keyToEntry
  unfold foundEntry at hfound
  split
  · rename_i h; simp only [h, if_true] at hfound; exact hfound allocs List.suffix_rfl
  · rename_i h
    simp only [h, if_false] at hfound
    split
    · rename_i hr; simp only [hr, if_true] at hfound; exact hfound allocs List.suffix_rfl
    · rename_i hr
      simp only [hr, if_false, Bool.false_eq_true] at hfound
      rw [wp_bind]
      refine wp_kMalloc_drawn fun b rest hd => ?_
      cases b with
      | true => exact hfound rest hd.suffix
      | false => exact hmem rest hd.suffix (hd.fail rfl)

theorem foundEntry_lookup {root : XsEntry} {key : CString} {e : EntryRef}
    (h : foundEntry root key = some e) : root.lookup e.path = some e.entry := by
  unfold foundEntry at h
  split at h
  · cases h
  split at h
  · cases h; rfl
  · cases ht : tokens key with
    | nil => simp [ht, entryAt] at h
    | cons tok toks =>
      rw [ht] at h
      cases hl : root.lookup (tok :: toks) with
      | none => simp [entryAt, hl] at h
      | some s =>
        simp only [entryAt, hl, Option.map_some, Option.some.injEq] at h
        subst h
        exact hl

/-- The node found for a key other than "/" is below the root, at the components of the key. -/
theorem foundEntry_path {root : XsEntry} {key : CString} {e : EntryRef}
    (h : foundEntry root key = some e) (hr : key ≠ [slash]) :
    e.path = tokens key ∧ tokens key ≠ [] := by
  have hroot : ¬ xenstoreIsRootPath key = true := by rwa [xenstoreIsRootPath_iff]
  by_cases hlen : key.length > xenstoreAbsPathMax
  · simp [foundEntry, hlen] at h
  rw [foundEntry, if_neg hlen, if_neg hroot] at h
  cases ht : tokens key with
  | nil => simp [ht, entryAt] at h
  | cons tok toks =>
    rw [ht] at h
    simp only [entryAt, Option.map_eq_some_iff] at h
    obtain ⟨s, _, rfl⟩ := h
    exact ⟨rfl, by simp⟩

/-- A key leads to the root only if it is "/". -/
theorem foundEntry_path_nil {root : XsEntry} {key : CString} {entry : EntryRef}
    (h : foundEntry root key = some entry) : entry.path = [] ↔ key = [slash] := by
  constructor
  · intro hp
    by_contra hr
    obtain ⟨hpath, hne⟩ := foundEntry_path h hr
    exact hne (hpath.symm.trans hp)
  · rintro rfl
    cases h
    rfl

theorem foundEntry_normalized {root : XsEntry} {path : CString} (h : Normalized path)
    (hr : path ≠ [slash]) :
    foundEntry root path = (root.lookup (tokens path)).map fun e => ⟨tokens path, e⟩ := by
  obtain ⟨ht, hl⟩ := h.tokens_ne_nil hr
  have hroot : ¬ xenstoreIsRootPath path = true := by rwa [xenstoreIsRootPath_iff]
  have hlen : ¬ path.length > xenstoreAbsPathMax := by omega
  simp only [foundEntry, hlen, if_false, hroot, Bool.false_eq_true]
  cases hc : tokens path with
  | nil => contradiction
  | cons tok toks => rfl

theorem checkPermsForEntry_error {root : XsEntry} {key : CString} {domid : UInt32} {perms : XsPerm}
    {e : Fault} (h : checkPermsForEntry (foundEntry root key) domid perms = .error e) :
    ¬ PermsOk root := by
  intro hok
  cases hf : foundEntry root key with
  | none => simp [hf, checkPermsForEntry] at h
  | some ref =>
    simp only [hf, checkPermsForEntry] at h
    exact (hok.lookup (foundEntry_lookup hf)).1 (checkPerms_error h)

theorem checkPermsForEntry_fault {entry : Option EntryRef} {domid : UInt32} {perms : XsPerm}
    {e : Fault} (h : checkPermsForEntry entry domid perms = .error e) : e = .emptyPerms := by
  cases entry with
  | none => cases h
  | some ref => exact checkPerms_fault h

/-- The entry `key_to_entry_check_perm` returns passed its check; nothing is returned where
there is no such entry or memory ran out. -/
theorem wp_keyToEntryCheckPerm {root : XsEntry} {key : CString} {domid : UInt32} {perms : XsPerm}
    {Q : Option EntryRef → List Bool → Prop} {E : Fault → Prop} {allocs : List Bool}
    (hsome : ∀ e rest, rest <:+ allocs → foundEntry root key = some e →
      checkPerms e.entry.label perms domid = .ok true → Q (some e) rest)
    (hnone : ∀ rest, rest <:+ allocs →
      (false ∈ allocs ∨ ∀ e, foundEntry root key = some e →
        checkPerms e.entry.label perms domid = .ok false) → Q none rest)
    (herr : ¬ PermsOk root → E .emptyPerms) :
    wp (keyToEntryCheckPerm root key domid perms) Q E allocs := by
  unfold keyToEntryCheckPerm
  rw [wp_bind]
  refine wp_keyToEntry (fun rest hs => ?_) (fun rest hs hmem => hnone rest hs (Or.inl hmem))
  rw [wp_bind]
  refine wp_lift (fun b hb => ?_) (fun e he => ?_)
  · cases hf : foundEntry root key with
    | none =>
      simp only [hf, checkPermsForEntry, Except.ok.injEq] at hb
      subst hb
      exact hnone rest hs (Or.inr fun e he => by rw [hf] at he; cases he)
    | some e =>
      simp only [hf, checkPermsForEntry] at hb
      cases b with
      | false =>
        refine hnone rest hs (Or.inr fun e' he => ?_)
        rw [hf] at he
        cases he
        exact hb
      | true => exact hsome e rest hs hf hb
  · rw [checkPermsForEntry_fault he]
    exact herr (checkPermsForEntry_error he)

theorem keyToEntryCheckPerm_nil {root : XsEntry} {key : CString} {domid : UInt32} {perms : XsPerm}
    (h : PermsOk root) :
    keyToEntryCheckPerm root key domid perms [] =
      .ok ((foundEntry root key).filter
        (fun e => checkPerms e.entry.label perms domid = .ok true), []) := by
  unfold keyToEntryCheckPerm
  simp only [bind, StateT.bind, keyToEntry_nil, Except.bind, Wp.lift]
  cases hf : foundEntry root key with
  | none => rfl
  | some e =>
    obtain ⟨b, hb⟩ := checkPerms_ok (h.lookup (foundEntry_lookup hf)).1 perms domid
    have hread : decide (checkPerms e.entry.label perms domid = .ok true) = b := by
      cases b <;> simp [hb]
    simp only [checkPermsForEntry, hb, Except.map]
    rw [Option.filter_some, hread]
    cases b <;> rfl

theorem wp_setPermsByArray {entry : XsNode} {newPerms : List XsPermEntry}
    {Q : Option Errno × XsNode → List Bool → Prop} {E : Fault → Prop} {allocs : List Bool}
    (hset : ∀ rest, rest <:+ allocs → Q (none, { entry with perms := newPerms }) rest)
    (hmem : ∀ rest, rest <:+ allocs → false ∈ allocs → Q (some .enomem, entry) rest) :
    wp (setPermsByArray entry newPerms) Q E allocs := by
  unfold setPermsByArray
  rw [wp_bind]
  refine wp_kMallocs_drawn _ fun b rest hd => ?_
  cases b with
  | true => exact hset rest hd.suffix
  | false => exact hmem rest hd.suffix (hd.fail rfl)

theorem wp_deserializePerms {strings : Bytes} {Q : Option (List XsPermEntry) → List Bool → Prop}
    {E : Fault → Prop} {allocs : List Bool}
    (hsome : ∀ ps rest, rest <:+ allocs → xenstorePermParseWire strings none = .ok ps → ps ≠ [] →
      Q (some ps) rest)
    (hnone : ∀ rest, rest <:+ allocs →
      (false ∈ allocs ∨ ∀ ps, xenstorePermParseWire strings none = .ok ps → ps = []) →
      Q none rest) : wp (deserializePerms strings) Q E allocs := by
  unfold deserializePerms
  cases hp : xenstorePermParseWire strings none with
  | error e => exact hnone allocs List.suffix_rfl (Or.inr fun ps h => by rw [hp] at h; cases h)
  | ok ps =>
    refine wp_ite (fun hlen => ?_) (fun hlen => ?_)
    · refine hnone allocs List.suffix_rfl (Or.inr fun qs h => ?_)
      rw [hp] at h
      cases h
      exact List.length_eq_zero_iff.mp hlen
    · rw [wp_bind]
      refine wp_kMalloc_drawn fun b rest hd => ?_
      cases b with
      | false => exact hnone rest hd.suffix (Or.inl (hd.fail rfl))
      | true =>
        simp only [permParseWire_room hp, if_true]
        exact hsome ps rest hd.suffix hp (fun h => hlen (by simp [h]))

theorem wp_setPermsByStrings {entry : XsNode} {permStr : Bytes}
    {Q : Option Errno × XsNode → List Bool → Prop} {E : Fault → Prop} {allocs : List Bool}
    (hset : ∀ ps rest, rest <:+ allocs → xenstorePermParseWire permStr none = .ok ps → ps ≠ [] →
      Q (none, { entry with perms := ps }) rest)
    (hkeep : ∀ e rest, rest <:+ allocs →
      (false ∈ allocs ∨ ∀ ps, xenstorePermParseWire permStr none = .ok ps → ps = []) →
      Q (some e, entry) rest) :
    wp (setPermsByStrings entry permStr) Q E allocs := by
  unfold setPermsByStrings
  rw [wp_bind]
  refine wp_deserializePerms (fun ps rest hs hp hne => ?_)
    (fun rest hs h => hkeep .einval rest hs h)
  exact wp_setPermsByArray (fun rest' hs' => hset ps rest' (hs'.trans hs) hp hne)
    (fun rest' hs' hmem => hkeep .enomem rest' (hs'.trans hs) (Or.inl (hs.subset hmem)))

/-- The node a write creates below `parent`. -/
def freshNode (perms : List XsPermEntry) (parent : XsNode) : XsNode :=
  ⟨none, if perms ≠ [] then perms else parent.perms⟩

def updNode (data : Option CString) (node : XsNode) : XsNode :=
  match data with
  | none => node
  | some value => { node with value := some value }

theorem freshNode_idem (perms : List XsPermEntry) (parent : XsNode) :
    freshNode perms (freshNode perms parent) = freshNode perms parent := by
  unfold freshNode
  split <;> rfl

theorem freshNode_perms_ne_nil {perms : List XsPermEntry} {parent : XsNode}
    (h : parent.perms ≠ []) : (freshNode perms parent).perms ≠ [] := by
  unfold freshNode
  split
  · assumption
  · exact h

@[simp] theorem updNode_perms (data : Option CString) (node : XsNode) :
    (updNode data node).perms = node.perms := by cases data <;> rfl

theorem wp_newEntryPerms {perms : List XsPermEntry} {parent : XsNode} {domid : UInt32}
    {Q : Option Errno × XsNode → List Bool → Prop} {E : Fault → Prop} {allocs : List Bool}
    (hset : ∀ rest, rest <:+ allocs → Q (none, freshNode perms parent) rest)
    (hmem : ∀ rest, rest <:+ allocs → false ∈ allocs → Q (some .enomem, ⟨none, []⟩) rest) :
    wp (newEntryPerms perms parent domid) Q E allocs := by
  unfold newEntryPerms
  by_cases hp : perms ≠ []
  · rw [if_pos hp]
    unfold setPermsByArray
    rw [wp_bind]
    refine wp_kMallocs_drawn _ fun b rest hd => ?_
    cases b with
    | true =>
      have hs := hset rest hd.suffix
      simp only [freshNode, if_pos hp] at hs
      exact hs
    | false => exact hmem rest hd.suffix (hd.fail rfl)
  · rw [if_neg hp]
    unfold inheritPerms
    rw [wp_bind]
    refine wp_kMallocs_drawn _ fun b rest hd => ?_
    cases b with
    | true =>
      have hs := hset rest hd.suffix
      simp only [freshNode, if_neg hp] at hs
      exact hs
    | false => exact hmem rest hd.suffix (hd.fail rfl)

section Write
variable (data : Option CString) (domid : UInt32) (perms : List XsPermEntry)

def writeTarget (toks : List CString) (t : XsEntry) : XsNode :=
  match t.lookup toks with
  | some s => s.label
  | none => freshNode perms (t.anchor toks)

/-- Everything the walk of a write can do, with the allocation outcomes `allocs`. It leaves the
tree as it was, or writes the whole path, or leaves the first new node behind without
permissions when allocating them failed. Below a node that was just inserted an error leaves
a subtree that the caller drops. -/
inductive WriteOutcome (allocs : List Bool) (inserted : Bool) (toks : List CString) (t : XsEntry) :
    Option Errno → XsEntry → Prop where
  | refused (e : Errno) (hmem : e = .enomem → false ∈ allocs) :
      WriteOutcome allocs inserted toks t (some e) t
  | written (hnew : t.lookup toks = none → Grants (t.anchor toks) domid)
      (hdata : data ≠ none → Grants (writeTarget perms toks t) domid) :
      WriteOutcome allocs inserted toks t none (t.plant (freshNode perms) (updNode data) toks)
  | leftover (p rest : List CString) (k : CString) (n : XsEntry) (hmem : false ∈ allocs)
      (htoks : toks = p ++ k :: rest) (hp : t.lookup p = some n)
      (hk : n.children.find? k = none) (hn : Grants n.label domid) :
      WriteOutcome allocs inserted toks t (some .enomem)
        (t.plant (fun _ => ⟨none, []⟩) id (p ++ [k]))
  | dropped (h : inserted = true) (e : Errno) (hmem : e = .enomem → false ∈ allocs)
      (t' : XsEntry) : WriteOutcome allocs inserted toks t (some e) t'

variable {data domid perms}

theorem WriteOutcome.mono {allocs rest : List Bool} {inserted : Bool} {toks : List CString}
    {t t' : XsEntry} {rc : Option Errno} (hsub : rest <:+ allocs)
    (h : WriteOutcome data domid perms rest inserted toks t rc t') :
    WriteOutcome data domid perms allocs inserted toks t rc t' := by
  cases h with
  | refused e hmem => exact .refused e fun h => hsub.subset (hmem h)
  | written hnew hdata => exact .written hnew hdata
  | leftover p r k n hmem htoks hp hk hn =>
    exact .leftover p r k n (hsub.subset hmem) htoks hp hk hn
  | dropped h e hmem t' => exact .dropped h e (fun h => hsub.subset (hmem h)) t'

theorem WriteOutcome.enomem {allocs : List Bool} {inserted : Bool} {toks : List CString}
    {t t' : XsEntry} (h : WriteOutcome data domid perms allocs inserted toks t (some .enomem) t') :
    false ∈ allocs := by
  cases h with
  | refused e hmem => exact hmem rfl
  | leftover p r k n hmem => exact hmem
  | dropped h e hmem => exact hmem rfl

theorem WriteOutcome.below {allocs : List Bool} {inserted : Bool} {tok : CString}
    {toks : List CString} {t s s' : XsEntry} {rc : Option Errno}
    (hs : t.children.find? tok = some s)
    (h : WriteOutcome data domid perms allocs inserted toks s rc s') :
    WriteOutcome data domid perms allocs inserted (tok :: toks) t rc
      { t with children := t.children.set tok s' } := by
  have hl : ∀ q, t.lookup (tok :: q) = s.lookup q := fun q => by simp [Tree.lookup_cons, hs]
  have ha : t.anchor (tok :: toks) = s.anchor toks := by simp [Tree.anchor, hs]
  cases h with
  | refused e hmem => rw [Forest.set_find? hs]; exact .refused e hmem
  | written hnew hdata =>
    rw [← Tree.plant_cons_some _ _ hs]
    refine .written (fun h => ?_) (fun h => ?_)
    · rw [ha]; exact hnew (by rw [← hl]; exact h)
    · simpa only [writeTarget, hl, ha] using hdata h
  | leftover p rest k n hmem htoks hp hk hn =>
    have hleft : WriteOutcome data domid perms allocs inserted (tok :: toks) t (some .enomem)
        (t.plant (fun _ => ⟨none, []⟩) id (tok :: p ++ [k])) :=
      .leftover (tok :: p) rest k n hmem (by simp [htoks]) (by rw [hl]; exact hp) hk hn
    rwa [List.cons_append, Tree.plant_cons_some _ _ hs] at hleft
  | dropped h e hmem t' => exact .dropped h e hmem _

theorem WriteOutcome.create {allocs : List Bool} (inserted : Bool) {tok : CString}
    {toks : List CString} {t s' : XsEntry} {rc : Option Errno}
    (hnone : t.children.find? tok = none) (hg : Grants t.label domid)
    (h : WriteOutcome data domid perms allocs true toks ⟨freshNode perms t.label, .nil⟩ rc s') :
    WriteOutcome data domid perms allocs inserted (tok :: toks) t rc
      (if rc.isSome && !inserted then t
       else { t with children := t.children.append tok s' }) := by
  have hl : t.lookup (tok :: toks) = none := by simp [Tree.lookup_cons, hnone]
  have ha : t.anchor (tok :: toks) = t.label := by simp [Tree.anchor, hnone]
  cases rc with
  | some e =>
    have hmem : e = .enomem → false ∈ allocs := fun he => (he ▸ h).enomem
    cases inserted with
    | false => exact .refused e hmem
    | true => exact .dropped rfl e hmem _
  | none =>
    cases h with
    | written _ hdata =>
      simp only [Option.isSome_none, Bool.false_and, Bool.false_eq_true, if_false]
      rw [← Tree.plant_cons_none (freshNode perms) (updNode data) hnone]
      refine .written (fun _ => by rw [ha]; exact hg) (fun hd => ?_)
      have hgrant := hdata hd
      simp only [writeTarget, hl, ha]
      cases toks with
      | nil => exact hgrant
      | cons k ks =>
        simpa only [writeTarget, Tree.lookup, Tree.anchor, Forest.find?, freshNode_idem]
          using hgrant

theorem wp_writeValue {inserted : Bool} {iter : XsEntry} {allocs : List Bool} :
    wp (writeValue data domid iter)
      (fun r rest => rest <:+ allocs ∧
        WriteOutcome data domid perms allocs inserted [] iter r.1 r.2)
      (fun e => e = .emptyPerms ∧ ¬ PermsOk iter) allocs := by
  have hset (v : Option CString) (h : v ≠ none → Grants iter.label domid) :
      WriteOutcome v domid perms allocs inserted [] iter none
        { iter with label := updNode v iter.label } :=
    .written (fun hl => by cases hl) h
  unfold writeValue
  cases data with
  | none => exact ⟨List.suffix_rfl, hset none (fun h => absurd rfl h)⟩
  | some value =>
    rw [wp_bind]
    refine wp_lift (fun b hb => ?_)
      (fun e he => ⟨checkPerms_fault he, fun hok => hok.1 (checkPerms_error he)⟩)
    cases b with
    | false => exact ⟨List.suffix_rfl, .refused .eacces nofun⟩
    | true =>
      simp only [if_true, wp_bind]
      refine wp_kMalloc_drawn fun b rest hd => ?_
      cases b with
      | true => exact ⟨hd.suffix, hset (some value) (fun _ => hb)⟩
      | false => exact ⟨hd.suffix, .refused .enomem fun _ => hd.fail rfl⟩

theorem wp_writeWalk (toks : List CString) (inserted : Bool) (t : XsEntry) (allocs : List Bool) :
    wp (writeWalk data domid perms toks inserted t)
      (fun r rest => rest <:+ allocs ∧
        WriteOutcome data domid perms allocs inserted toks t r.1 r.2)
      (fun e => e = .emptyPerms ∧ ¬ PermsOk t) allocs := by
  induction toks generalizing inserted t allocs with
  | nil => exact wp_writeValue
  | cons tok toks ih =>
    unfold writeWalk
    cases hf : t.children.find? tok with
    | some s =>
      simp only [wp_bind]
      exact wp_mono (ih inserted s allocs) (fun r _ h => ⟨h.1, h.2.below hf⟩)
        (fun _ hs => ⟨hs.1, fun hok => hs.2 (hok.find? hf)⟩)
    | none =>
      simp only [wp_bind]
      refine wp_lift (fun b hb => ?_)
        (fun e he => ⟨checkPerms_fault he, fun hok => hok.1 (checkPerms_error he)⟩)
      cases b with
      | false => exact ⟨List.suffix_rfl, .refused .eacces nofun⟩
      | true =>
        simp only [Bool.not_true, Bool.false_eq_true, if_false, wp_bind]
        refine wp_kMalloc_drawn fun b rest₁ hd₁ => ?_
        cases b with
        | false => exact ⟨hd₁.suffix, .refused .enomem fun _ => hd₁.fail rfl⟩
        | true =>
          simp only [Bool.not_true, Bool.false_eq_true, if_false, wp_bind]
          refine wp_kMalloc_drawn fun b rest₂ hd₂ => ?_
          have hs₂ := hd₂.suffix.trans hd₁.suffix
          cases b with
          | false =>
            exact ⟨hs₂, .refused .enomem fun _ => hd₁.suffix.subset (hd₂.fail rfl)⟩
          | true =>
            simp only [Bool.not_true, Bool.false_eq_true, if_false, wp_bind]
            refine wp_newEntryPerms (fun rest₃ hs₃ => ?_) (fun rest₃ hs₃ hmem => ?_)
            · simp only [wp_bind]
              refine wp_mono (ih true _ rest₃) (fun r rest₄ h => ?_)
                (fun _ hs => ⟨hs.1, fun hok => hs.2 ⟨freshNode_perms_ne_nil hok.1, trivial⟩⟩)
              have hs₄ := hs₃.trans hs₂
              have hout := (h.2.mono hs₄).create inserted hf hb
              split
              · rename_i hc; rw [if_pos hc] at hout; exact ⟨h.1.trans hs₄, hout⟩
              · rename_i hc; rw [if_neg hc] at hout; exact ⟨h.1.trans hs₄, hout⟩
            · have hleft : WriteOutcome data domid perms allocs inserted (tok :: toks) t
                  (some .enomem) (t.plant (fun _ => ⟨none, []⟩) id ([] ++ [tok])) :=
                .leftover [] toks tok t (hs₂.subset hmem) rfl rfl hf hb
              rw [List.nil_append, Tree.plant_cons_none _ _ hf] at hleft
              exact ⟨hs₃.trans hs₂, hleft⟩

theorem wp_writeTree {path : CString} {root : XsEntry} {allocs : List Bool} :
    wp (writeTree path data domid perms root)
      (fun r rest => rest <:+ allocs ∧
        ((tokens path = [] ∧ r = (none, root)) ∨
          WriteOutcome data domid perms allocs false (tokens path) root r.1 r.2))
      (fun e => e = .emptyPerms ∧ ¬ PermsOk root) allocs := by
  unfold writeTree
  cases ht : tokens path with
  | nil => exact ⟨List.suffix_rfl, Or.inl ⟨rfl, rfl⟩⟩
  | cons tok toks =>
    exact wp_conseq (wp_writeWalk (tok :: toks) false root allocs)
      (fun r _ h => ⟨h.1, Or.inr h.2⟩)

end Write

theorem WellFormed.plant {root : XsEntry} {fresh upd : XsNode → XsNode} {p : List CString}
    (h : WellFormed root) (hp : ∀ k ∈ p, k ≠ [] ∧ slash ∉ k)
    (hf : ∀ n, n.perms ≠ [] → (fresh n).perms ≠ []) (hu : ∀ n, n.perms ≠ [] → (upd n).perms ≠ []) :
    WellFormed (root.plant fresh upd p) := by
  obtain ⟨hl, hc⟩ := Tree.all_plant hp hf hu h.rootPerms h.nodes
  exact ⟨hl, hc, Tree.distinct_plant h.distinct⟩

theorem PermsOk.plant {t : XsEntry} (h : PermsOk t) (perms : List XsPermEntry)
    (data : Option CString) (p : List CString) :
    PermsOk (t.plant (freshNode perms) (updNode data) p) := by
  have hplant : (t.plant (freshNode perms) (updNode data) p).label.perms ≠ [] ∧
      (t.plant (freshNode perms) (updNode data) p).children.All fun _ n => True ∧ n.perms ≠ [] :=
    @Tree.all_plant _ _ _ _ _ _ _ (fun _ => True) (fun n : XsNode => n.perms ≠ [])
      (fun _ _ => trivial) (fun _ hn => freshNode_perms_ne_nil hn)
      (fun _ hn => by rwa [updNode_perms]) h.1 (h.2.imp fun _ _ hn => ⟨trivial, hn⟩)
  exact ⟨hplant.1, hplant.2.imp fun _ _ hn => hn.2⟩

theorem WellFormed.modify {root : XsEntry} {f : XsNode → XsNode} (h : WellFormed root)
    (p : List CString) (hf : ∀ n, (f n).perms ≠ []) : WellFormed (root.modify f p) := by
  refine ⟨?_, Tree.all_modify (fun k n hn => ⟨hn.1, hf n⟩) h.nodes, Tree.distinct_modify h.distinct⟩
  cases p with
  | nil => exact hf _
  | cons k ks => rw [Tree.modify_label]; exact h.rootPerms

theorem WellFormed.remove {root : XsEntry} (h : WellFormed root) (p : List CString) :
    WellFormed (root.remove p) :=
  ⟨by rw [Tree.remove_label]; exact h.rootPerms, Tree.all_remove h.nodes,
    Tree.distinct_remove h.distinct⟩

theorem WriteOutcome.distinct {data : Option CString} {domid : UInt32} {perms : List XsPermEntry}
    {allocs : List Bool} {toks : List CString} {t t' : XsEntry} {rc : Option Errno}
    (h : WriteOutcome data domid perms allocs false toks t rc t') (ht : t.children.Distinct) :
    t'.children.Distinct := by
  cases h with
  | refused e => exact ht
  | written hnew hdata => exact Tree.distinct_plant ht
  | leftover p rest k n => exact Tree.distinct_plant ht
  | dropped h => cases h

theorem WriteOutcome.wellFormed {data : Option CString} {domid : UInt32}
    {perms : List XsPermEntry} {path : CString} {allocs : List Bool} {t t' : XsEntry}
    {rc : Option Errno} (hgranted : false ∉ allocs)
    (h : WriteOutcome data domid perms allocs false (tokens path) t rc t') (ht : WellFormed t) :
    WellFormed t' := by
  cases h with
  | refused e => exact ht
  | written hnew hdata =>
    exact ht.plant (fun k hk => tokens_spec hk) (fun n hn => freshNode_perms_ne_nil hn)
      (fun n hn => by rwa [updNode_perms])
  | leftover p rest k n hmem => exact absurd hmem hgranted
  | dropped h => cases h

theorem removeRefEntriesRecursive_spec (domid : UInt32) {K : CString → Prop} (f : EntryList)
    (h : f.All fun k n => K k ∧ n.perms ≠ []) (hd : f.Distinct) :
    ∃ f', removeRefEntriesRecursive domid f = .ok f' ∧
      (f'.All fun k n => K k ∧ n.perms ≠ []) ∧ f'.Distinct ∧ f'.keys ⊆ f.keys := by
  induction f with
  | nil => exact ⟨.nil, rfl, trivial, trivial, List.Subset.refl _⟩
  | cons key node children next ihc ihn =>
    obtain ⟨hnode, hc, hn⟩ := h
    obtain ⟨hkey, hdc, hdn⟩ := hd
    obtain ⟨next', hn', halln, hdistn, hkeysn⟩ := ihn hn hdn
    cases hp : node.perms with
    | nil => exact absurd hp hnode.2
    | cons owner ps =>
      by_cases ho : owner.domid.toUInt32 = domid
      · refine ⟨next', ?_, halln, hdistn, fun k hk => List.mem_cons_of_mem _ (hkeysn hk)⟩
        simp [removeRefEntriesRecursive, hp, ho, hn']
      · obtain ⟨children', hc', hallc, hdistc, _⟩ := ihc hc hdc
        have hstrip : (stripPerms domid node).perms ≠ [] := by simp [stripPerms, hp, ho]
        refine ⟨.cons key (stripPerms domid node) children' next', ?_,
          ⟨⟨hnode.1, hstrip⟩, hallc, halln⟩, ⟨fun hm => hkey (hkeysn hm), hdistc, hdistn⟩, ?_⟩
        · simp only [removeRefEntriesRecursive, hp, List.head?_cons, ho, if_false, hc', hn']
        · exact List.cons_subset_cons key hkeysn

end Xenlib
