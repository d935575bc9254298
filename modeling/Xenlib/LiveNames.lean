import Xenlib.BackendRemoval
import Xenlib.Naming

/-!
The names of live domains differ as long as every scan sees the domain that has the name already.
A name only comes into the store while `create_mutex` is held, by the creation whose scan has
found nobody else with it.
-/

set_option autoImplicit false

namespace Xenlib

open Keyed Wp Machine

/-- The domain has the name in the store. A node without a value is no name. -/
def Named (t : XsEntry) (domain : UInt16) (name : CString) : Prop :=
  name ≠ [] ∧ ∃ n, t.node (namePath domain) = some n ∧ n.value = some name

section Paths
variable {domain d e : UInt16}

theorem decimalInt_toUInt32 (domain : UInt16) :
    decimalInt domain.toUInt32 = decimal domain.toNat := by
  have h := domain.toNat_lt
  unfold decimalInt
  rw [UInt16.toNat_toUInt32, if_pos (by omega)]

theorem components_namePath (domain : UInt16) : Components (namePath domain) :=
  (components_localDomainDir _).append (by decide)

theorem namePath_ne_nil (domain : UInt16) : namePath domain ≠ [] := List.cons_ne_nil _ _

theorem removable_namePath (domain : UInt16) : Removable (namePath domain) := by
  refine removable_of (components_namePath domain) (namePath_ne_nil domain) ?_
  have hint := decimalInt_length_le domain.toUInt32
  have hlocal : (cstr "local").length = 5 := by decide
  have hdomain : (cstr "domain").length = 6 := by decide
  have hname : (cstr "name").length = 4 := by decide
  simp [namePath, localDomainDir, hlocal, hdomain, hname]
  omega

theorem localDomainDir_name {domid : UInt32} {q : List CString}
    (h : localDomainDir domid ++ q = namePath d) : domid = d.toUInt32 ∧ q = [cstr "name"] := by
  simp only [namePath, localDomainDir, List.cons_append, List.nil_append, List.cons.injEq] at h
  exact ⟨decimalInt_injective h.2.2.1, h.2.2.2⟩

end Paths

structure NamesGo (t t' : XsEntry) : Prop where
  distinct : t'.children.Distinct
  names : ∀ domain name, Named t' domain name → Named t domain name

section Go
variable {t t' t'' : XsEntry} {s : Shared}

theorem NamesGo.refl (h : t.children.Distinct) : NamesGo t t := ⟨h, fun _ _ hn => hn⟩

theorem NamesGo.of_nodes (hd : t'.children.Distinct)
    (h : ∀ q n', q ≠ [] → t'.node q = some n' → ∃ n, t.node q = some n ∧ n.value = n'.value) :
    NamesGo t t' := by
  refine ⟨hd, fun domain name hname => ?_⟩
  obtain ⟨hne, n', hn', hvalue⟩ := hname
  obtain ⟨n, hn, heq⟩ := h _ n' (namePath_ne_nil domain) hn'
  exact ⟨hne, n, hn, heq.trans hvalue⟩

theorem NamesGo.remove {p : List CString} (hp : p ≠ []) (hd : t.children.Distinct) :
    NamesGo t (t.remove p) := by
  refine .of_nodes (Tree.distinct_remove hd) fun q n' _ hn' => ?_
  rw [Tree.node_remove hp q hd] at hn'
  split at hn'
  · cases hn'
  · exact ⟨n', hn', rfl⟩

theorem NamesGo.depart {domid : UInt32} (hd : t.children.Distinct) :
    NamesGo t (departedRoot domid t) := by
  refine .of_nodes (distinct_departedRoot hd) fun q n' hq hn' => ?_
  obtain ⟨n, hn, rfl, -⟩ := (node_departedRoot hq hd).mp hn'
  exact ⟨n, hn, rfl⟩

theorem wp_xssRm_names (path : CString) (hd : s.root.children.Distinct) :
    wp (xssRm (some path)) (fun _ s' => NamesGo s.root s'.root) (fun _ => True) s := by
  refine wp_conseq (wp_xssRm_root path) fun _ s' h => ?_
  rcases h with hroot | ⟨entry, -, hne, hroot⟩
  · rw [hroot]
    exact .refl hd
  · rw [hroot]
    exact .remove hne hd

theorem wp_removeRefEntries_names (domid : UInt32) (hd : s.root.children.Distinct) :
    wp (removeRefEntries domid) (fun _ s' => NamesGo s.root s'.root) (fun _ => True) s := by
  refine wp_removeRefEntries (fun children hc => ?_) (fun _ => trivial)
  have hroot : ({ s.root with children := children } : XsEntry) = departedRoot domid s.root := by
    rw [departedRoot, removeRefEntriesRecursive_ok hc]
  show NamesGo s.root _
  rw [hroot]
  exact .depart hd

theorem NodeWritten.names {p : List CString} {value : CString} {rc : Option Errno}
    (h : NodeWritten p value rc t t') {domain : UInt16} {name : CString}
    (hname : Named t' domain name) :
    Named t domain name ∨ rc = none ∧ p = namePath domain ∧ name = value := by
  obtain ⟨hne, n', hn', hvalue⟩ := hname
  have hwritten (hp : namePath domain = p) (hrc : rc = none) : name = value := by
    obtain ⟨m, hm, hmv⟩ := h.value hrc
    rw [← hp, hn'] at hm
    cases hm
    exact Option.some.inj (hvalue.symm.trans hmv)
  cases hn : t.node (namePath domain) with
  | some n =>
    obtain ⟨m, hm, hkept⟩ := h.kept _ n hn
    rw [hn'] at hm
    cases hm
    rcases hkept with rfl | ⟨hp, hrc⟩
    · exact Or.inl ⟨hne, n', hn, hvalue⟩
    · exact Or.inr ⟨hrc, hp.symm, hwritten hp hrc⟩
  | none =>
    rcases (h.added _ n' hn hn').2 with hnone | ⟨hp, hrc⟩
    · rw [hnone] at hvalue
      cases hvalue
    · exact Or.inr ⟨hrc, hp.symm, hwritten hp hrc⟩

end Go

section Read
variable {s : Shared} {name : CString} {domain : UInt16}

theorem wp_xssRead_name (domain : UInt16) (s : Shared) :
    wp (xssRead (renderPath (namePath domain)))
      (fun r s' => s'.root = s.root ∧ match r with
        | .ok domname => ∃ n, s.root.node (namePath domain) = some n ∧ domname = n.value.getD []
        | .error _ => (s.root.node (namePath domain)).isSome → s.allocs.head? = some false)
      (fun _ => False) s := by
  have hr := removable_namePath domain
  have htoks := tokens_renderPath hr.components
  have hlen : ¬ (renderPath (namePath domain)).length > xenstoreAbsPathMax := not_lt.mpr hr.length
  have hroot : ¬ xenstoreIsRootPath (renderPath (namePath domain)) = true := by
    rw [xenstoreIsRootPath_iff]
    exact renderPath_ne_slash hr.components hr.ne_nil
  have hat : entryAt s.root (namePath domain) =
      (s.root.lookup (namePath domain)).map fun e => ⟨namePath domain, e⟩ := rfl
  have hkey : wp (keyToEntryCheckPerm s.root (renderPath (namePath domain)) 0 .read)
      (fun entry _ => entry = entryAt s.root (namePath domain) ∨
        entry = none ∧ s.allocs.head? = some false) (fun _ => False) s.allocs := by
    have hpermitted (entry : Option EntryRef) (rest : List Bool)
        (h : entry = entryAt s.root (namePath domain) ∨
          entry = none ∧ s.allocs.head? = some false) :
        wp (do
          if ← Wp.lift (checkPermsForEntry entry 0 .read) then pure entry else pure none)
          (fun entry _ => entry = entryAt s.root (namePath domain) ∨
            entry = none ∧ s.allocs.head? = some false) (fun _ => False) rest := by
      cases entry with
      | none => exact h
      | some e =>
        have hok : checkPermsForEntry (some e) 0 .read = .ok true := checkPerms_zero _ _
        rw [wp_bind, hok]
        exact h
    unfold keyToEntryCheckPerm keyToEntry
    rw [if_neg hlen, if_neg hroot, htoks, wp_bind, wp_bind]
    cases hallocs : s.allocs with
    | nil =>
      rw [hallocs] at hpermitted
      exact hpermitted _ _ (Or.inl rfl)
    | cons b bs =>
      rw [hallocs] at hpermitted
      cases b with
      | true => exact hpermitted _ _ (Or.inl rfl)
      | false => exact hpermitted none bs (Or.inr ⟨rfl, rfl⟩)
  unfold xssRead
  simp only [wp_bind, wp_get, wp_alloc]
  refine wp_conseq hkey fun entry rest h => ?_
  rw [hat] at h
  cases hl : s.root.lookup (namePath domain) with
  | none =>
    obtain rfl : entry = none := by
      rcases h with h | h
      · rw [h, hl]
        rfl
      · exact h.1
    refine ⟨rfl, fun hsome => ?_⟩
    rw [Keyed.Tree.node, hl] at hsome
    cases hsome
  | some e =>
    rcases h with h | ⟨rfl, hfalse⟩
    · rw [h, hl]
      exact ⟨rfl, e.label, by rw [Keyed.Tree.node, hl]; rfl, rfl⟩
    · exact ⟨rfl, fun _ => hfalse⟩

theorem take_eq_name {a b : CString} (hb : b.length ≤ 63) :
    a.take containerNameSize = b.take containerNameSize ↔ a = b := by
  have hb' : b.take containerNameSize = b :=
    List.take_of_length_le (by unfold containerNameSize; omega)
  constructor
  · intro h
    have hlen : (a.take containerNameSize).length ≤ 63 := by rwa [h, hb']
    rw [List.length_take] at hlen
    have ha : a.take containerNameSize = a := by
      refine List.take_of_length_le ?_
      unfold containerNameSize at hlen ⊢
      omega
    rw [← ha, h, hb']
  · rintro rfl
    rfl

theorem namePath_eq (domain : UInt16) :
    [cstr "local", cstr "domain", decimal domain.toNat, cstr "name"] = namePath domain := by
  rw [← decimalInt_toUInt32]
  rfl

theorem wp_nameMatches (hlen : name.length ≤ 63) (domain : UInt16) (s : Shared) :
    wp (nameMatches name domain)
      (fun same s' => s'.root = s.root ∧
        (same = true → name ≠ [] → Named s.root domain name) ∧
        (same = false → Named s.root domain name → s.allocs.head? = some false))
      (fun _ => False) s := by
  unfold nameMatches
  rw [namePath_eq, wp_bind]
  refine wp_conseq (wp_xssRead_name domain s) fun r s' h => ?_
  obtain ⟨hroot, hr⟩ := h
  cases r with
  | error e =>
    refine ⟨hroot, nofun, fun _ hname => hr ?_⟩
    obtain ⟨-, n, hn, -⟩ := hname
    rw [hn]
    rfl
  | ok domname =>
    obtain ⟨n, hn, rfl⟩ := hr
    refine ⟨hroot, fun hsame hne => ?_, fun hsame hname => ?_⟩
    · have heq := (take_eq_name hlen).mp (of_decide_eq_true hsame)
      refine ⟨hne, n, hn, ?_⟩
      cases hv : n.value with
      | none =>
        rw [hv] at heq
        exact absurd heq.symm hne
      | some v =>
        rw [hv] at heq
        exact congrArg some heq
    · obtain ⟨-, n', hn', hvalue⟩ := hname
      rw [hn] at hn'
      cases hn'
      have hne := of_decide_eq_false hsame
      rw [hvalue] at hne
      exact absurd rfl hne

end Read

section Writes
variable {dom : NewDomain} {nw : NodeWrite}

theorem nodeWrites_name {domid : UInt32} (name : CString) (numVcpus maxMemKb : Nat) (d : UInt16) :
    ∀ nw ∈ nodeWrites domid name numVcpus maxMemKb, nw.path = namePath d →
      domid = d.toUInt32 ∧
        nw.value = if name ≠ [] then name else cstr "zephyr-" ++ decimalInt domid := by
  have hother {q : List CString} {value v : CString} (hq : q ≠ [cstr "name"]) :
      localDomainDir domid ++ q = namePath d → domid = d.toUInt32 ∧ value = v :=
    fun h => absurd (localDomainDir_name h).2 hq
  have hroot {value v : CString} :
      localDomainDir domid = namePath d → domid = d.toUInt32 ∧ value = v := by
    intro h
    have hlen := congrArg List.length h
    cases hlen
  have hvm {q : List CString} {value v : CString} :
      vmDir domid ++ q = namePath d → domid = d.toUInt32 ∧ value = v :=
    fun h => absurd (List.cons.inj h).1 (by decide)
  have hlibxl {q : List CString} {value v : CString} :
      libxlDir domid ++ q = namePath d → domid = d.toUInt32 ∧ value = v :=
    fun h => absurd (List.cons.inj h).1 (by decide)
  have hcpu (i : Nat) : [cstr "cpu", decimal i, cstr "availability"] ≠ [cstr "name"] := by simp
  have hrw : ∀ q ∈ rwDirs, q ≠ [cstr "name"] := by decide
  unfold nodeWrites
  simp only [List.forall_mem_append, List.forall_mem_cons, List.forall_mem_map]
  refine ⟨⟨⟨⟨⟨hroot, nofun⟩, fun i _ => hother (hcpu i)⟩, ?_⟩, fun q hq => hother (hrw q hq)⟩,
    hlibxl, hlibxl, nofun⟩
  exact ⟨hother (by decide), hother (by decide), hother (by decide), hother (by decide),
    hother (by decide), hother (by decide), fun h => absurd (List.cons.inj h).1 (by decide),
    fun h => ⟨(localDomainDir_name h).1, trivial⟩, hvm, hvm, hother (by decide),
    hother (by decide), hother (by decide), nofun⟩

theorem NewDomain.writes_name (hlen : dom.name.length ≤ 63) (hnw : nw ∈ dom.writes) {d : UInt16}
    (hp : nw.path = namePath d) : d = dom.domid ∧ nw.value = dom.given := by
  have htake : dom.name.take (containerNameSize - 1) = dom.name :=
    List.take_of_length_le (by unfold containerNameSize; omega)
  unfold NewDomain.writes at hnw
  rw [htake] at hnw
  obtain ⟨hd, hvalue⟩ := nodeWrites_name _ _ _ d nw hnw hp
  refine ⟨?_, hvalue⟩
  rw [← UInt16.toNat_inj, ← UInt16.toNat_toUInt32, ← hd, UInt16.toNat_toUInt32]

/-- A write of a creation gives no domain a name but its own. -/
theorem wp_creationWrite {s : Shared} (hlen : dom.name.length ≤ 63) (hnw : nw ∈ dom.writes)
    (hd : s.root.children.Distinct) :
    wp (nw.run dom.domid.toUInt32)
      (fun _ s' => s'.root.children.Distinct ∧ ∀ d name, Named s'.root d name →
        Named s.root d name ∨ d = dom.domid ∧ name = dom.given) (fun _ => True) s := by
  have hok := nodeOk_nodeWrites _ _ _ nw hnw
  rw [NodeWrite.run_eq]
  have hne : nw.path ≠ [] := by
    intro hnil
    have hof := hok.ofDomain
    rw [hnil] at hof
    rcases hof with h | h | h <;> cases List.prefix_nil.mp h
  refine wp_conseq (wp_xssWriteWith_nodes hok.components hne hd) fun rc s' h =>
    ⟨h.distinct, fun d name hname => ?_⟩
  rcases h.names hname with hold | ⟨-, hp, rfl⟩
  · exact Or.inl hold
  · exact Or.inr (dom.writes_name hlen hnw hp)

end Writes

section Inv
variable {w w' : NameWorld}

/-- Dom0, or a domain that Xen knows. -/
def NameWorld.Live (w : NameWorld) (d : UInt16) : Prop := d = 0 ∨ d ∈ w.xen

/-- No two live domains have the same name. -/
def UniqueNames (w : NameWorld) : Prop :=
  ∀ d e name, w.Live d → w.Live e → Named w.shared.root d name → Named w.shared.root e name → d = e

def CreatePc.InSection : CreatePc → Prop
  | .locked | .scanning _ | .writing _ | .removing _ => True
  | _ => False

def Creator.Knows (w : NameWorld) (c : Creator) : Prop :=
  match c.pc with
  | .scanning infos => ∀ d, w.Live d → Named w.shared.root d c.dom.given →
      d ∈ infos ∧ d ≠ 0 ∧ c.dom.name ≠ []
  | .writing ws => (∀ d, w.Live d → d ≠ c.dom.domid → ¬ Named w.shared.root d c.dom.given) ∧
      ∀ nw ∈ ws, nw ∈ c.dom.writes
  | _ => True

structure CreatorOk (w : NameWorld) (i : Nat) (c : Creator) : Prop where
  length : c.dom.name.length ≤ 63
  inside : c.pc.InSection → w.holder = some i
  knows : c.Knows w

structure NamesInv (w : NameWorld) : Prop where
  distinct : w.shared.root.children.Distinct
  unique : UniqueNames w
  creators : ∀ i c, w.creators[i]? = some c → CreatorOk w i c

structure Fewer (w w' : NameWorld) : Prop where
  distinct : w'.shared.root.children.Distinct
  names : ∀ d name, w'.Live d → Named w'.shared.root d name →
    w.Live d ∧ Named w.shared.root d name

theorem Fewer.unique (h : Fewer w w') (hu : UniqueNames w) : UniqueNames w' := by
  intro d e name hd he hdn hen
  obtain ⟨hd, hdn⟩ := h.names d name hd hdn
  obtain ⟨he, hen⟩ := h.names e name he hen
  exact hu d e name hd he hdn hen

theorem Fewer.knows (h : Fewer w w') {c : Creator} (hk : c.Knows w) : c.Knows w' := by
  obtain ⟨dom, pc⟩ := c
  cases pc with
  | scanning infos =>
    intro d hd hname
    obtain ⟨hd, hname⟩ := h.names d _ hd hname
    exact hk d hd hname
  | writing ws =>
    refine ⟨fun d hd hne hname => ?_, hk.2⟩
    obtain ⟨hd, hname⟩ := h.names d _ hd hname
    exact hk.1 d hd hne hname
  | setup | stored | served | locked | removing | named | stopping | dying | done => trivial

theorem Creator.knows_outside {c : Creator} (h : ¬ c.pc.InSection) : c.Knows w := by
  obtain ⟨dom, pc⟩ := c
  cases pc with
  | scanning | writing => exact absurd trivial h
  | setup | stored | served | locked | removing | named | stopping | dying | done => trivial

theorem NamesInv.still (h : NamesInv w) (hf : Fewer w w') (hc : w'.creators = w.creators)
    (hh : w'.holder = w.holder) : NamesInv w' := by
  refine ⟨hf.distinct, hf.unique h.unique, fun i c hi => ?_⟩
  rw [hc] at hi
  have hok := h.creators i c hi
  exact ⟨hok.length, fun hin => hh.trans (hok.inside hin), hf.knows hok.knows⟩

theorem NamesInv.moved (h : NamesInv w) {i : Nat} {c : Creator} {pc : CreatePc}
    (hi : w.creators[i]? = some c) (hf : Fewer w w')
    (hc : w'.creators = w.creators.set i { c with pc := pc })
    (hh : ∀ j, j ≠ i → w.holder = some j → w'.holder = some j)
    (hin : pc.InSection → w'.holder = some i) (hk : Creator.Knows w' { c with pc := pc }) :
    NamesInv w' := by
  refine ⟨hf.distinct, hf.unique h.unique, fun j c' hj => ?_⟩
  rw [hc] at hj
  by_cases hij : i = j
  · subst hij
    have hlt := (List.getElem?_eq_some_iff.mp hi).1
    rw [List.getElem?_set_self hlt] at hj
    cases hj
    exact ⟨(h.creators i c hi).length, hin, hk⟩
  · rw [List.getElem?_set_ne hij] at hj
    have hok := h.creators j c' hj
    exact ⟨hok.length, fun hin => hh j (fun hji => hij hji.symm) (hok.inside hin),
      hf.knows hok.knows⟩

end Inv

/-- The scan misses nobody: if a domain has the name already, it is not Dom0, the name was asked
for, Xen answers and lists the domain, and there is memory to read the name. -/
def Creator.Sees (w : NameWorld) (c : Creator) (ok : Bool) : Prop :=
  match c.pc with
  | .locked => ∀ d, w.Live d → Named w.shared.root d c.dom.given →
      d ≠ 0 ∧ c.dom.name ≠ [] ∧ ok = true ∧ d ∈ w.xen.take w.allDomainsMax
  | .scanning (d :: _) => Named w.shared.root d c.dom.given → w.shared.allocs.head? ≠ some false
  | _ => True

/-- Names have at most 63 bytes and come from creations only, no name is left under an id that
Xen gives out, and no scan misses a domain. -/
def NameWorld.Guarded (w : NameWorld) : NameAction → Prop
  | .create dom => dom.name.length ≤ 63 ∧ ∀ name, ¬ Named w.shared.root dom.domid name
  | .run i ok => ∀ c, w.creators[i]? = some c → c.Sees w ok
  | .other s => NamesGo w.shared.root s.root
  | _ => True

section Steps
variable {w w' : NameWorld} {i : Nat} {c : Creator} {ok : Bool}

theorem NameWorld.onStore_spec {α : Type} {x : SrvM α} {next : α → NameWorld → NameWorld}
    (h : w.onStore x next = some w') :
    ∃ a s, x w.shared = .ok (a, s) ∧ w' = next a { w with shared := s } := by
  unfold onStore at h
  cases hx : x w.shared with
  | error e => simp [hx] at h
  | ok r =>
    simp only [hx, Option.some.injEq] at h
    exact ⟨r.1, r.2, rfl, h.symm⟩

theorem Fewer.of_go (h : NamesGo w.shared.root w'.shared.root) (hx : w'.xen ⊆ w.xen) :
    Fewer w w' :=
  ⟨h.distinct, fun d name hd hname => ⟨hd.imp id fun hd => hx hd, h.names d name hname⟩⟩

theorem Fewer.of_root (hd : w.shared.root.children.Distinct)
    (hroot : w'.shared.root = w.shared.root) (hx : w'.xen ⊆ w.xen) : Fewer w w' := by
  refine .of_go ?_ hx
  rw [hroot]
  exact .refl hd

theorem NewDomain.given_eq {dom : NewDomain} (h : dom.name ≠ []) : dom.given = dom.name :=
  if_pos h

theorem NamesInv.away (h : NamesInv w) {pc : CreatePc} (hi : w.creators[i]? = some c)
    (hf : Fewer w w') (hc : w'.creators = w.creators.set i { c with pc := pc })
    (hh : w'.holder = w.holder) (hout : ¬ pc.InSection) : NamesInv w' :=
  h.moved hi hf hc (fun _ _ hj => hh.trans hj) (fun hin => absurd hin hout)
    (Creator.knows_outside hout)

theorem NamesInv.leave (h : NamesInv w) {pc : CreatePc} (hi : w.creators[i]? = some c)
    (hin : c.pc.InSection) (hf : Fewer w w')
    (hc : w'.creators = w.creators.set i { c with pc := pc }) (hout : ¬ pc.InSection) :
    NamesInv w' := by
  refine h.moved hi hf hc (fun j hj hholder => ?_) (fun hin => absurd hin hout)
    (Creator.knows_outside hout)
  rw [(h.creators i c hi).inside hin] at hholder
  exact absurd (Option.some.inj hholder).symm hj

theorem NamesInv.stay (h : NamesInv w) {pc : CreatePc} (hi : w.creators[i]? = some c)
    (hin : c.pc.InSection) (hf : Fewer w w')
    (hc : w'.creators = w.creators.set i { c with pc := pc }) (hh : w'.holder = w.holder)
    (hk : Creator.Knows w' { c with pc := pc }) : NamesInv w' :=
  h.moved hi hf hc (fun _ _ hj => hh.trans hj)
    (fun _ => hh.trans ((h.creators i c hi).inside hin)) hk

theorem NamesInv.unmatched (h : NamesInv w) (hi : w.creators[i]? = some c)
    (hin : c.pc.InSection) (hnone : ∀ d, w.Live d → ¬ Named w.shared.root d c.dom.given) :
    NamesInv (w.at i c (.writing c.dom.writes)) :=
  h.stay hi hin (.of_root h.distinct rfl (List.Subset.refl _)) rfl rfl
    ⟨fun d hd _ => hnone d hd, fun _ hnw => hnw⟩

theorem NamesInv.compare (h : NamesInv w) {domain : UInt16} {rest : List UInt16}
    (hi : w.creators[i]? = some c) (hpc : c.pc = .scanning (domain :: rest))
    (hsees : Named w.shared.root domain c.dom.given → w.shared.allocs.head? ≠ some false)
    (hs : w.runCreator i c ok = some w') : NamesInv w' := by
  have hok := h.creators i c hi
  have hin : c.pc.InSection := by rw [hpc]; trivial
  have hknows : ∀ d, w.Live d → Named w.shared.root d c.dom.given →
      d ∈ domain :: rest ∧ d ≠ 0 ∧ c.dom.name ≠ [] := by
    have hknows := hok.knows
    unfold Creator.Knows at hknows
    rwa [hpc] at hknows
  unfold NameWorld.runCreator at hs
  rw [hpc] at hs
  obtain ⟨same, s, hx, rfl⟩ := NameWorld.onStore_spec hs
  obtain ⟨hroot, hmatch, hmiss⟩ := wp_ok (wp_nameMatches hok.length domain w.shared) hx
  have hf : Fewer w { w with shared := s } := .of_root h.distinct hroot (List.Subset.refl _)
  have hw : NamesInv { w with shared := s } := h.still hf rfl rfl
  cases same with
  | true =>
    simp only [NameWorld.found, if_true]
    by_cases hzero : domain ≠ 0
    · rw [if_pos hzero]
      exact hw.leave hi hin (.of_root hw.distinct rfl (List.Subset.refl _)) rfl id
    · rw [if_neg hzero]
      refine hw.unmatched hi hin fun d hd hname => ?_
      -- Dom0 stands for no domain: it must not have the name that was asked for.
      obtain ⟨-, -, hne⟩ := hknows d hd (hf.names d _ hd hname).2
      have hdom0 := hmatch rfl hne
      rw [not_not] at hzero
      rw [hzero, ← NewDomain.given_eq hne] at hdom0
      exact (hknows 0 (Or.inl rfl) hdom0).2.1 rfl
  | false =>
    simp only [Bool.false_eq_true, if_false]
    refine hw.stay hi hin (.of_root hw.distinct rfl (List.Subset.refl _)) rfl rfl
      fun d hd hname => ?_
    obtain ⟨hmem, hd0, hne⟩ := hknows d hd (hf.names d _ hd hname).2
    refine ⟨?_, hd0, hne⟩
    rcases List.mem_cons.mp hmem with rfl | hmem
    · have hname' := (hf.names d _ hd hname).2
      have hmiss' := hmiss rfl (by rwa [← NewDomain.given_eq hne])
      exact absurd hmiss' (hsees hname')
    · exact hmem

/-- The write of a node. The name is new, so no live domain has it. -/
theorem NamesInv.write (h : NamesInv w) {nw : NodeWrite} {ws : List NodeWrite}
    (hi : w.creators[i]? = some c) (hpc : c.pc = .writing (nw :: ws))
    (hs : w.runCreator i c ok = some w') : NamesInv w' := by
  have hok := h.creators i c hi
  have hin : c.pc.InSection := by rw [hpc]; trivial
  obtain ⟨hfree, hws⟩ : (∀ d, w.Live d → d ≠ c.dom.domid →
      ¬ Named w.shared.root d c.dom.given) ∧ ∀ v ∈ nw :: ws, v ∈ c.dom.writes := by
    have hknows := hok.knows
    unfold Creator.Knows at hknows
    rwa [hpc] at hknows
  unfold NameWorld.runCreator at hs
  rw [hpc] at hs
  obtain ⟨rc, s, hx, rfl⟩ := NameWorld.onStore_spec hs
  obtain ⟨hd, hnames⟩ :=
    wp_ok (wp_creationWrite hok.length (hws nw List.mem_cons_self) h.distinct) hx
  have hw : NamesInv { w with shared := s } := by
    refine ⟨hd, fun d e name hd he hdn hen => ?_, fun j c' hj => ?_⟩
    · rcases hnames d name hdn with hold | ⟨rfl, rfl⟩
      · rcases hnames e name hen with hold' | ⟨rfl, rfl⟩
        · exact h.unique d e name hd he hold hold'
        · by_contra hne
          exact hfree d hd hne hold
      · by_contra hne
        rcases hnames e _ hen with hold' | ⟨rfl, -⟩
        · exact hfree e he (fun heq => hne heq.symm) hold'
        · exact hne rfl
    · have hok' := h.creators j c' hj
      refine ⟨hok'.length, hok'.inside, ?_⟩
      by_cases hij : j = i
      · subst hij
        rw [hi] at hj
        cases hj
        unfold Creator.Knows
        rw [hpc]
        refine ⟨fun d hd hne hname => ?_, hws⟩
        rcases hnames d _ hname with hold | ⟨rfl, -⟩
        · exact hfree d hd hne hold
        · exact hne rfl
      · refine Creator.knows_outside fun hin' => hij ?_
        have hheld := hok'.inside hin'
        rw [hok.inside hin] at hheld
        exact (Option.some.inj hheld).symm
  cases rc with
  | some e =>
    exact hw.stay hi hin (.of_root hw.distinct rfl (List.Subset.refl _)) rfl rfl trivial
  | none =>
    have hknows := (hw.creators i c hi).knows
    unfold Creator.Knows at hknows
    rw [hpc] at hknows
    exact hw.stay hi hin (.of_root hw.distinct rfl (List.Subset.refl _)) rfl rfl
      ⟨hknows.1, fun v hv => hws v (List.mem_cons_of_mem _ hv)⟩

theorem NamesInv.runCreator (h : NamesInv w) (hi : w.creators[i]? = some c)
    (hsees : c.Sees w ok) (hs : w.runCreator i c ok = some w') : NamesInv w' := by
  have hsame {w' : NameWorld} (hroot : w'.shared.root = w.shared.root) (hx : w'.xen = w.xen) :
      Fewer w w' := .of_root h.distinct hroot (hx ▸ List.Subset.refl _)
  cases hpc : c.pc with
  | scanning infos =>
    have hin : c.pc.InSection := by rw [hpc]; trivial
    cases infos with
    | nil =>
      have hknows := (h.creators i c hi).knows
      simp only [NameWorld.runCreator, hpc, Option.some.injEq] at hs
      rw [← hs]
      unfold Creator.Knows at hknows
      rw [hpc] at hknows
      exact h.unmatched hi hin fun d hd hname => List.not_mem_nil (hknows d hd hname).1
    | cons domain rest =>
      unfold Creator.Sees at hsees
      rw [hpc] at hsees
      exact h.compare hi hpc hsees hs
  | writing ws =>
    have hin : c.pc.InSection := by rw [hpc]; trivial
    cases ws with
    | nil =>
      simp only [NameWorld.runCreator, hpc, Option.some.injEq] at hs
      rw [← hs]
      exact h.leave hi hin (hsame rfl rfl) rfl id
    | cons nw ws => exact h.write hi hpc hs
  | removing dirs =>
    have hin : c.pc.InSection := by rw [hpc]; trivial
    cases dirs with
    | nil =>
      simp only [NameWorld.runCreator, hpc, Option.some.injEq] at hs
      rw [← hs]
      exact h.leave hi hin (hsame rfl rfl) rfl id
    | cons dir dirs =>
      simp only [NameWorld.runCreator, hpc] at hs
      obtain ⟨a, s, hx, rfl⟩ := NameWorld.onStore_spec hs
      have hgo := wp_ok (wp_xssRm_names (renderPath dir) h.distinct) hx
      exact h.stay hi hin (.of_go hgo (List.Subset.refl _)) rfl rfl trivial
  | locked =>
    have hin : c.pc.InSection := by rw [hpc]; trivial
    unfold Creator.Sees at hsees
    simp only [NameWorld.runCreator, hpc, Option.some.injEq] at hs hsees
    rw [← hs]
    cases ok with
    | true =>
      exact h.stay hi hin (hsame rfl rfl) rfl rfl fun d hd hname =>
        ⟨(hsees d hd hname).2.2.2, (hsees d hd hname).1, (hsees d hd hname).2.1⟩
    | false =>
      exact h.unmatched hi hin fun d hd hname => Bool.noConfusion (hsees d hd hname).2.2.1
  | served =>
    simp only [NameWorld.runCreator, hpc] at hs
    split at hs
    · rename_i hfree
      cases hs
      refine h.moved hi (hsame rfl rfl) rfl (fun j _ hj => ?_)
        (fun _ => rfl) trivial
      rw [hfree] at hj
      cases hj
    · cases hs
  | stopping =>
    simp only [NameWorld.runCreator, hpc] at hs
    obtain ⟨a, s, hx, rfl⟩ := NameWorld.onStore_spec hs
    have hgo := wp_ok (wp_removeRefEntries_names c.dom.domid.toUInt32 h.distinct) hx
    exact h.away hi (.of_go hgo (List.Subset.refl _)) rfl rfl id
  | named =>
    simp only [NameWorld.runCreator, hpc] at hs
    split at hs
    · cases hs
      exact h.away hi (hsame rfl rfl) rfl rfl id
    · split at hs
      · cases hs
      · cases hs
        exact h.away hi (hsame rfl rfl) rfl rfl id
  | dying =>
    simp only [NameWorld.runCreator, hpc, Option.some.injEq] at hs
    rw [← hs]
    exact h.away hi (.of_root h.distinct rfl List.erase_subset) rfl rfl id
  | setup =>
    simp only [NameWorld.runCreator, hpc, Option.some.injEq] at hs
    rw [← hs]
    cases ok with
    | true => exact h.away hi (hsame rfl rfl) rfl rfl id
    | false => exact h.away hi (hsame rfl rfl) rfl rfl id
  | stored =>
    simp only [NameWorld.runCreator, hpc, Option.some.injEq] at hs
    rw [← hs]
    cases ok with
    | true => exact h.away hi (hsame rfl rfl) rfl rfl id
    | false => exact h.away hi (hsame rfl rfl) rfl rfl id
  | done => simp [NameWorld.runCreator, hpc] at hs

theorem NamesInv.runTeardown (h : NamesInv w) {t : Teardown} (hs : w.runTeardown t = some w') :
    NamesInv w' := by
  obtain ⟨domid, ops⟩ := t
  cases ops with
  | nil => simp [NameWorld.runTeardown] at hs
  | cons op ops =>
    cases op with
    | remove path =>
      simp only [NameWorld.runTeardown] at hs
      obtain ⟨a, s, hx, rfl⟩ := NameWorld.onStore_spec hs
      have hgo := wp_ok (wp_xssRm_names (renderPath path) h.distinct) hx
      exact h.still (.of_go hgo (List.Subset.refl _)) rfl rfl
    | depart =>
      simp only [NameWorld.runTeardown] at hs
      obtain ⟨a, s, hx, rfl⟩ := NameWorld.onStore_spec hs
      have hgo := wp_ok (wp_removeRefEntries_names domid.toUInt32 h.distinct) hx
      exact h.still (.of_go hgo (List.Subset.refl _)) rfl rfl
    | destroyDomain =>
      cases hs
      exact h.still (.of_root h.distinct rfl List.erase_subset) rfl rfl
    | unlink =>
      cases hs
      exact h.still (.of_root h.distinct rfl (List.Subset.refl _)) rfl rfl

theorem NamesInv.step (h : NamesInv w) {a : NameAction} (hg : w.Guarded a)
    (hs : w.step a = some w') : NamesInv w' := by
  cases a with
  | create dom =>
    simp only [NameWorld.step] at hs
    split at hs
    · cases hs
    · cases hs
      obtain ⟨hlen, hnone⟩ := hg
      have hf : Fewer w { w with
          xen := w.xen.orderedInsert (· ≤ ·) dom.domid
          creators := w.creators ++ [⟨dom, .setup⟩] } := by
        refine ⟨h.distinct, fun d name hd hname => ⟨hd.imp id fun hd => ?_, hname⟩⟩
        rcases (List.mem_orderedInsert _).mp hd with rfl | hd
        · exact absurd hname (hnone name)
        · exact hd
      refine ⟨hf.distinct, hf.unique h.unique, fun i c hi => ?_⟩
      by_cases hlt : i < w.creators.length
      · rw [List.getElem?_append_left hlt] at hi
        have hok := h.creators i c hi
        exact ⟨hok.length, hok.inside, hf.knows hok.knows⟩
      · have hmem := List.mem_of_getElem? (by
          rwa [List.getElem?_append_right (not_lt.mp hlt)] at hi)
        rw [List.mem_singleton.mp hmem]
        exact ⟨hlen, nofun, trivial⟩
  | run i ok =>
    simp only [NameWorld.step] at hs
    cases hi : w.creators[i]? with
    | none => simp [hi] at hs
    | some c =>
      simp only [hi] at hs
      exact h.runCreator hi (hg c hi) hs
  | destroy domid backends =>
    simp only [NameWorld.step] at hs
    split at hs
    · cases hs
    · cases hs
      exact h.still (.of_root h.distinct rfl (List.Subset.refl _)) rfl rfl
  | teardown =>
    simp only [NameWorld.step] at hs
    cases ht : w.teardown with
    | none => simp [ht] at hs
    | some t =>
      simp only [ht] at hs
      exact h.runTeardown hs
  | other s =>
    cases hs
    exact h.still (.of_go hg (List.Subset.refl _)) rfl rfl

theorem NameWorld.Booted.inv (h : w.Booted) : NamesInv w := by
  refine ⟨h.distinct, fun d e name hd he _ _ => ?_, fun i c hi => ?_⟩
  · have hzero (d : UInt16) (hd : w.Live d) : d = 0 := by
      rcases hd with hd | hd
      · exact hd
      · rw [h.xen] at hd
        exact List.mem_singleton.mp hd
    rw [hzero d hd, hzero e he]
  · rw [h.creators] at hi
    cases hi

end Steps

theorem findNameLoop_cons (name : CString) (domain : UInt16) (rest : List UInt16) :
    findNameLoop name (domain :: rest) = (do
      if ← nameMatches name domain then pure domain.toUInt32 else findNameLoop name rest) := by
  unfold nameMatches
  rw [findNameLoop, bind_assoc]
  refine bind_congr fun r => ?_
  cases r with
  | error e => simp
  | ok domname => simp

section Find
variable {name : CString} {infos : List UInt16} {s : Shared}

/-- With memory at hand the loop gives a domain with the name, if there is one. -/
theorem wp_findNameLoop (hne : name ≠ []) (hlen : name.length ≤ 63) (infos : List UInt16)
    (hmem : false ∉ s.allocs) :
    wp (findNameLoop name infos)
      (fun r _ => (∃ d ∈ infos, Named s.root d name ∧ r = d.toUInt32) ∨
        r = 0 ∧ ∀ d ∈ infos, ¬ Named s.root d name) (fun _ => False) s := by
  induction infos generalizing s with
  | nil => exact Or.inr ⟨rfl, nofun⟩
  | cons domain rest ih =>
    have hkeep : wp (nameMatches name domain) (fun _ s' => s'.allocs <:+ s.allocs)
        (fun _ => True) s := by
      unfold nameMatches xssRead
      simp only [wp_bind, wp_get, wp_alloc]
      refine wp_keyToEntryCheckPerm (fun e rest hs _ _ => ?_) (fun rest hs _ => ?_)
        (fun _ => trivial)
      · exact hs
      · exact hs
    rw [findNameLoop_cons, wp_bind]
    refine wp_mono (wp_and (wp_nameMatches hlen domain s) hkeep) (fun same s' h => ?_)
      (fun _ h => h.1)
    obtain ⟨⟨hroot, hmatch, hmiss⟩, hsuffix⟩ := h
    cases same with
    | true => exact Or.inl ⟨domain, List.mem_cons_self, hmatch rfl hne, rfl⟩
    | false =>
      have hnot : ¬ Named s.root domain name := fun hname =>
        hmem (List.mem_of_mem_head? (hmiss rfl hname))
      simp only [Bool.false_eq_true, if_false]
      refine wp_conseq (ih fun hfalse => hmem (hsuffix.subset hfalse)) fun r s'' hr => ?_
      rw [hroot] at hr
      rcases hr with ⟨d, hd, hname, hr⟩ | ⟨hr, hnone⟩
      · exact Or.inl ⟨d, List.mem_cons_of_mem _ hd, hname, hr⟩
      · exact Or.inr ⟨hr, List.forall_mem_cons.mpr ⟨hnot, hnone⟩⟩

end Find

/-- `find_domain_by_name` gives the only live domain with the name, and 0 only if no live domain
but Dom0 has it. Xen is asked for `ALL_DOMAINS_MAX` domains. -/
def FindsNames (w : NameWorld) : Prop :=
  ∀ (env : CreateEnv) (cw : CreateState) (name : CString), cw.shared = w.shared →
    env.infos = w.xen.take w.allDomainsMax → name ≠ [] → name.length ≤ 63 →
    0 ≤ env.rc .domainInfo → w.xen.length ≤ w.allDomainsMax → false ∉ w.shared.allocs →
    ∃ r cw', findDomainByName env name cw = .ok (r, cw') ∧
      ((∃ d, w.Live d ∧ Named w.shared.root d name ∧ r = d.toUInt32 ∧
        ∀ e, w.Live e → Named w.shared.root e name → e = d) ∨
      r = 0 ∧ ∀ d, w.Live d → d ≠ 0 → ¬ Named w.shared.root d name)

theorem findsNames_of_unique {w : NameWorld} (h : UniqueNames w) : FindsNames w := by
  intro env cw name hshared hinfos hne hlen hrc hall hmem
  have hspec : wp (findDomainByName env name) (fun r _ =>
      (∃ d, w.Live d ∧ Named w.shared.root d name ∧ r = d.toUInt32 ∧
        ∀ e, w.Live e → Named w.shared.root e name → e = d) ∨
      r = 0 ∧ ∀ d, w.Live d → d ≠ 0 → ¬ Named w.shared.root d name) (fun _ => False) cw := by
    unfold findDomainByName
    rw [wp_bind]
    refine wp_of_ok (show traced (env.call .domainInfo) cw = .ok (env.rc .domainInfo,
      { cw with made := cw.made ++ [.domainInfo] }) from rfl) ?_
    rw [if_neg (not_lt.mpr hrc)]
    refine wp_onShared ?_
    rw [← hshared] at hmem
    refine wp_conseq (wp_findNameLoop hne hlen env.infos hmem) fun r s' hr => ?_
    rw [show (cw.shared : Shared) = w.shared from hshared, hinfos,
      List.take_of_length_le hall] at hr
    rcases hr with ⟨d, hd, hname, hr⟩ | ⟨hr, hnone⟩
    · exact Or.inl ⟨d, Or.inr hd, hname, hr, fun e he hename =>
        h e d name he (Or.inr hd) hename hname⟩
    · exact Or.inr ⟨hr, fun d hd hzero => hnone d (hd.resolve_left hzero)⟩
  obtain ⟨r, cw', hrun, hr⟩ := wp_total hspec
  exact ⟨r, cw', hrun, hr⟩

/-- Along every run in which no scan misses a domain, the names of live domains differ, and
`find_domain_by_name` finds them. -/
theorem live_names_unique (w₀ w : NameWorld) (acts : List NameAction) (hboot : w₀.Booted)
    (hguard : Along NameWorld.step NameWorld.Guarded w₀ acts)
    (hrun : run NameWorld.step w₀ acts = some w) : UniqueNames w ∧ FindsNames w := by
  have hinv : NamesInv w :=
    run_invariant (fun _ _ _ hinv hg hs => hinv.step hg hs) hboot.inv hguard hrun
  exact ⟨hinv.unique, findsNames_of_unique hinv.unique⟩

def storedName (t : XsEntry) (domain : UInt16) : Option CString :=
  (t.node (namePath domain)).bind fun n => n.value

theorem named_iff {t : XsEntry} {domain : UInt16} {name : CString} :
    Named t domain name ↔ name ≠ [] ∧ storedName t domain = some name := by
  unfold Named storedName
  rw [Option.bind_eq_some_iff]

/-- Dom0 with its nodes. -/
def dom0Store : Shared :=
  let empty := { Shared.boot 4 with root := ⟨⟨none, [⟨0, .none⟩]⟩, .nil⟩ }
  match xsInitializeXenstore 0 (cstr "Domain-0") 1 0 empty with
  | .ok (_, s) => s
  | .error _ => empty

def dom0Only : NameWorld := ⟨dom0Store, [0], [], none, [], none⟩

theorem dom0Only_booted : dom0Only.Booted where
  xen := rfl
  domainList := rfl
  holder := rfl
  creators := rfl
  teardown := rfl
  distinct := by decide +kernel

def createRun (name : CString) (steps : Nat) : List NameAction :=
  .create ⟨1, name, 1, 0⟩ :: List.replicate steps (.run 0 true)

/-- Created domains have names of at most 63 bytes, and what others do to the store only takes
names out. -/
def NameWorld.Provided (w : NameWorld) : NameAction → Prop
  | .create dom => dom.name.length ≤ 63
  | .other s => NamesGo w.shared.root s.root
  | _ => True

theorem provided_createRun {name : CString} (h : name.length ≤ 63) (steps : Nat) (w : NameWorld) :
    Along NameWorld.step NameWorld.Provided w (createRun name steps) := by
  have hlabels : Along NameWorld.step (fun _ a => ∀ w : NameWorld, w.Provided a) w
      (createRun name steps) := by
    refine along_labels (fun a ha w => ?_) w
    rcases List.mem_cons.mp ha with rfl | ha
    · exact h
    · rw [(List.mem_replicate.mp ha).2]
      trivial
  exact hlabels.mono fun w a ha => ha w

/-- A domain with the name of Dom0. -/
theorem dom0_name_twice :
    ¬ ∀ (w₀ w : NameWorld) (acts : List NameAction), w₀.Booted →
      Along NameWorld.step NameWorld.Provided w₀ acts →
      run NameWorld.step w₀ acts = some w → UniqueNames w := by
  intro h
  have hrun : (run NameWorld.step dom0Only (createRun (cstr "Domain-0") 35)).any (fun w =>
      w.domainList = [1] && w.xen.contains 1 &&
        storedName w.shared.root 0 = some (cstr "Domain-0") &&
        storedName w.shared.root 1 = some (cstr "Domain-0")) = true := by decide +kernel
  obtain ⟨w, hw, hnames⟩ := (Option.any_eq_true _ _).mp hrun
  simp only [Bool.and_eq_true, decide_eq_true_eq, List.contains_eq_mem] at hnames
  obtain ⟨⟨⟨-, hone⟩, hzero⟩, hname⟩ := hnames
  have hunique := h dom0Only w _ dom0Only_booted (provided_createRun (by decide) 35 _) hw
  have hne : cstr "Domain-0" ≠ [] := by decide
  have heq := hunique 0 1 (cstr "Domain-0") (Or.inl rfl) (Or.inr hone)
    (named_iff.mpr ⟨hne, hzero⟩) (named_iff.mpr ⟨hne, hname⟩)
  exact absurd heq (by decide)

def Creator.compared (w : NameWorld) (c : Creator) : List UInt16 :=
  match c.pc with
  | .locked => 0 :: w.xen
  | .scanning infos => infos
  | _ => []

/-- None of them has the name of the creation, and no name is left under a new id. -/
def NameWorld.unusedName (w : NameWorld) : NameAction → Bool
  | .create dom => decide (dom.name.length ≤ 63) && (storedName w.shared.root dom.domid).isNone
  | .run i _ => (w.creators[i]?).all fun c =>
      (c.compared w).all fun d => decide (storedName w.shared.root d ≠ some c.dom.given)
  | .destroy _ _ | .teardown => true
  | .other _ => false

theorem guarded_of_unusedName (w : NameWorld) (a : NameAction) (h : w.unusedName a = true) :
    w.Guarded a := by
  cases a with
  | create dom =>
    simp only [NameWorld.unusedName, Bool.and_eq_true, decide_eq_true_eq,
      Option.isNone_iff_eq_none] at h
    refine ⟨h.1, fun name hname => ?_⟩
    rw [named_iff, h.2] at hname
    cases hname.2
  | run i ok =>
    intro c hi
    simp only [NameWorld.unusedName, hi, Option.all_some, List.all_eq_true,
      decide_eq_true_eq] at h
    have hnot {d : UInt16} (hd : d ∈ c.compared w) : ¬ Named w.shared.root d c.dom.given :=
      fun hname => h d hd (named_iff.mp hname).2
    obtain ⟨dom, pc⟩ := c
    cases pc with
    | locked =>
      intro d hd hname
      refine absurd hname (hnot ?_)
      rcases hd with rfl | hd
      · exact List.mem_cons_self
      · exact List.mem_cons_of_mem _ hd
    | scanning infos =>
      cases infos with
      | nil => trivial
      | cons d rest => exact fun hname => absurd hname (hnot List.mem_cons_self)
    | setup | stored | served | writing | removing | named | stopping | dying | done => trivial
  | destroy | teardown => trivial
  | other s => cases h

theorem live_names_unique_guest : ∃ w,
    run NameWorld.step dom0Only (createRun (cstr "guest") 37) = some w ∧ UniqueNames w ∧
      FindsNames w := by
  have hrun : (run NameWorld.step dom0Only (createRun (cstr "guest") 37)).isSome = true := by
    decide +kernel
  obtain ⟨w, hw⟩ := Option.isSome_iff_exists.mp hrun
  have hunused : Along NameWorld.step (fun w a => w.unusedName a = true) dom0Only
      (createRun (cstr "guest") 37) := by decide +kernel
  exact ⟨w, hw, live_names_unique dom0Only w _ dom0Only_booted
    (hunused.mono guarded_of_unusedName) hw⟩

end Xenlib
