import Xenlib.DomFdtCalls

/-!
The copies from a partial tree. Where a path leads to a node, the copy puts the tags of that node
as they are enumerated.
-/

set_option autoImplicit false

namespace Xenlib.Libfdt

theorem FdtItems.find_tags {items : FdtItems} {s : CString} {found : CString × FdtItems}
    (h : items.find s = some found) :
    ∀ tag ∈ FdtTag.beginNode found.1 :: found.2.tags, tag ∈ items.tags := by
  induction items with
  | nil => cases h
  | property p next ih => exact fun tag htag => List.mem_cons_of_mem _ (ih h tag htag)
  | node name content next _ ih =>
    intro tag htag
    rw [find] at h
    by_cases hname : nodenameEq name s = true
    · rw [if_pos hname] at h
      obtain rfl := Option.some.inj h
      rcases List.mem_cons.mp htag with rfl | hin
      · exact List.mem_cons_self
      · exact List.mem_cons_of_mem _ (List.mem_append_left _ hin)
    · rw [if_neg hname] at h
      exact List.mem_cons_of_mem _
        (List.mem_append_right _ (List.mem_cons_of_mem _ (ih h tag htag)))

theorem FdtItems.lookup_tags {names : List CString} {node found : CString × FdtItems}
    (h : lookup names node = some found) :
    ∀ tag ∈ FdtTag.beginNode found.1 :: found.2.tags,
      tag ∈ FdtTag.beginNode node.1 :: node.2.tags := by
  induction names generalizing node with
  | nil =>
    obtain rfl := Option.some.inj h
    exact fun tag htag => htag
  | cons s names ih =>
    obtain ⟨next, hnext, hrest⟩ := Option.bind_eq_some_iff.mp h
    exact fun tag htag => List.mem_cons_of_mem _ (find_tags hnext tag (ih hrest tag htag))

theorem FdtBuf.str_length {fdt : FdtBuf} {p : Nat} {s : CString} (h : fdt.str p = .ok s) :
    s.length < fdt.mem.length := by
  cases hread : readStr (fdt.mem.drop p) with
  | error e => simp [FdtBuf.str, hread] at h
  | ok t =>
    obtain rfl : t = s := by simpa [FdtBuf.str, hread] using h
    obtain ⟨tail, htail⟩ := readStr_ok hread
    have hlen := congrArg List.length htail
    rw [List.length_append, strBytes_length, List.length_drop] at hlen
    omega

theorem fdtGetString_length {fdt : FdtBuf} {stroffset : Int} {s : CString}
    (h : fdtGetString fdt stroffset = .ok (.ok s)) : s.length < fdt.mem.length := by
  unfold fdtGetString at h
  cases hspan : stringSpan fdt stroffset with
  | error err => simp [hspan] at h
  | ok span =>
    cases hread : readStr (Span.slice fdt.mem span.1 span.2) with
    | error e =>
      simp only [hspan, FdtBuf.memchrNul, hread, bind, Except.bind] at h
      split_ifs at h
      cases h
    | ok t =>
      simp only [hspan, FdtBuf.memchrNul, hread, bind, Except.bind] at h
      cases h
      obtain ⟨tail, htail⟩ := readStr_ok hread
      have hlen := congrArg List.length htail
      rw [List.length_append, strBytes_length, Span.slice, List.length_take, List.length_drop]
        at hlen
      omega

theorem Walk.small {fdt : FdtBuf} {off : Nat} {tags : List FdtTag} (hw : Walk fdt off tags)
    (hmax : fdt.mem.length < intMax) : ∀ tag ∈ tags, tag.Small := by
  rw [intMax] at hmax
  induction hw with
  | finish _ => exact List.forall_mem_nil _
  | nop _ _ ih => exact ih
  | tag hp hreads _ ih =>
    refine List.forall_mem_cons.mpr ⟨?_, ih⟩
    cases hreads with
    | beginNode name =>
      have hlen := FdtBuf.str_length hp.holds
      exact (show name.length < 2 ^ 31 - 1 by omega)
    | @property nameoff name value hname =>
      have hlen := fdtGetString_length hname
      exact ⟨by omega, hp.holds.1⟩
    | endNode => trivial

end Xenlib.Libfdt

namespace Xenlib.DomFdt

open Libfdt

structure Copyable (long : Prop) (tag : FdtTag) : Prop where
  small : tag.Small
  name : 64 < tag.nameSize → long

section
variable {long : Prop} {pfdt : FdtBuf} {off : Nat}

theorem propertiesLoop_end (pfdt : FdtBuf) (k : Nat) :
    propertiesLoop pfdt (k + 1) (-fdtErrNotfound) = give 0 := by
  funext fdt
  rw [propertiesLoop]
  exact if_neg (by decide)

/-- A property is read and put, and the loop goes on with the next one. -/
theorem propertiesLoop_property (h : Libfdt.Readable pfdt) {n next nameoff : Nat} {name : CString}
    {value : Bytes} (hn : n % fdtTagsize = 0) (hp : PieceAt pfdt n (.prop nameoff value) next)
    (hname : fdtGetString pfdt (toInt nameoff) = .ok (.ok name)) {propoff : Int}
    (hnext : nextProp pfdt (pfdt.mem.length + 1) next = .ok propoff) (k : Nat) (fdt : FdtBuf) :
    propertiesLoop pfdt (k + 1) n fdt =
      inOrder [fdtProperty name value, propertiesLoop pfdt k propoff] fdt := by
  obtain ⟨-, -, hnameoff, hvalue⟩ := hp.holds
  rw [inOrder_cons]
  simp only [propertiesLoop, if_pos (Int.natCast_nonneg n), fdtGetPropertyByOffset_here h hn hp,
    hnameoff, hname, Int.toNat_natCast, hvalue, withName, bind, Except.bind,
    fdtNextPropertyOffset_here hn hp, hnext]
  cases fdtProperty name value fdt with
  | error stop => rfl
  | ok res =>
    by_cases hr : res.1 = 0
    · simp only [hr, if_pos]
      rw [if_neg (not_not.mpr rfl), inOrder_singleton]
    · simp only [if_neg hr]
      exact if_pos hr

theorem propertiesLoop_puts (h : Libfdt.Readable pfdt) (items : FdtItems) {rest : List FdtTag}
    (hw : Walk pfdt off (items.tags ++ (.endNode :: rest))) (hoff : off % fdtTagsize = 0)
    (hsmall : ∀ tag ∈ items.tags, Copyable long tag) :
    ∃ propoff, nextProp pfdt (pfdt.mem.length + 1) off = .ok propoff ∧
      ∀ rounds, items.tags.length < rounds →
        Puts long (propertiesLoop pfdt rounds propoff) (items.leading.map FdtProperty.tag) 0 := by
  have hdone : ∀ rounds, items.tags.length < rounds →
      Puts long (propertiesLoop pfdt rounds (-fdtErrNotfound)) [] 0 := by
    intro rounds hrounds
    obtain ⟨k, rfl⟩ := Nat.exists_eq_add_of_le' (show 1 ≤ rounds by omega)
    rw [propertiesLoop_end]
    exact Puts.give 0
  induction items generalizing off with
  | nil =>
    exact ⟨_, nextProp_notfound hw (fun _ _ => FdtTag.noConfusion) (rounds_start h.framed off),
      hdone⟩
  | node name content items =>
    exact ⟨_, nextProp_notfound hw (fun _ _ => FdtTag.noConfusion) (rounds_start h.framed off),
      hdone⟩
  | property p items ih =>
    obtain ⟨n, hn, hhere⟩ := nextProp_property hw hoff (rounds_start h.framed off)
    obtain ⟨next, nameoff, hnext, hname, hp, hrest⟩ := hhere.property
    obtain ⟨hp', hitems⟩ := List.forall_mem_cons.mp hsmall
    obtain ⟨propoff, hpropoff, hputs⟩ := ih hrest hnext hitems fun rounds hrounds => by
      obtain ⟨k, rfl⟩ := Nat.exists_eq_add_of_le' (show 1 ≤ rounds by omega)
      rw [propertiesLoop_end]
      exact Puts.give 0
    refine ⟨n, hn, fun rounds hrounds => ?_⟩
    simp only [FdtItems.tags, List.length_cons] at hrounds
    obtain ⟨k, rfl⟩ := Nat.exists_eq_add_of_le' (show 1 ≤ rounds by omega)
    exact ((Puts.tag hp'.small hp'.name).andThen (hputs k (by omega))).congr
      (propertiesLoop_property h hhere.aligned hp hname hpropoff k)

theorem copyProperties_puts (h : Libfdt.Readable pfdt) {n next : Nat} {name : CString}
    (hn : n % fdtTagsize = 0) (hp : PieceAt pfdt n (.beginNode name) next) (items : FdtItems)
    {rest : List FdtTag} (hw : Walk pfdt next (items.tags ++ (.endNode :: rest)))
    (hsmall : ∀ tag ∈ items.tags, Copyable long tag) :
    Puts long (copyProperties pfdt n) (items.leading.map FdtProperty.tag) 0 := by
  obtain ⟨propoff, hpropoff, hputs⟩ := propertiesLoop_puts h items hw hp.aligned hsmall
  have hroom := hw.room
  have hsize := h.framed.size
  rw [List.length_append] at hroom
  refine (hputs (pfdt.mem.length + 1) (by omega)).congr fun fdt => ?_
  simp only [copyProperties, fdtFirstPropertyOffset_here hn hp, hpropoff, bind, Except.bind]

theorem copyNode_eq (h : Libfdt.Readable pfdt) {n next : Nat} {name : CString}
    (hn : n % fdtTagsize = 0) (hp : PieceAt pfdt n (.beginNode name) next) {r : Int}
    (hfirst : fdtFirstSubnode pfdt n = .ok r) (k : Nat) (fdt : FdtBuf) :
    copyNode pfdt (k + 1) n fdt =
      inOrder [fdtBeginNode name, copyProperties pfdt n, copySubnodes pfdt k r, fdtEndNode]
        fdt := by
  have hname := fdtGetName_here h hn hp
  have hlast := inOrder_singleton fdtEndNode
  simp only [inOrder, bind, Except.bind] at hlast
  simp only [copyNode, inOrder, hname, hfirst, withName, bind, Except.bind, hlast]

theorem copyNode_puts (h : Libfdt.Readable pfdt) {n next : Nat} {name : CString}
    (hn : n % fdtTagsize = 0) (hp : PieceAt pfdt n (.beginNode name) next) {content : FdtItems}
    {rest : List FdtTag} (hw : Walk pfdt next (content.tags ++ (.endNode :: rest)))
    (hsmall : ∀ tag ∈ FdtTag.beginNode name :: content.tags, Copyable long tag) {r : Int}
    (hr : Search pfdt (subnodeCont pfdt) next 0 r) {k : Nat}
    (hsub : Puts long (copySubnodes pfdt k r) content.nodes.tags 0) :
    Puts long (copyNode pfdt (k + 1) n) (FdtNode.tags ⟨name, content.leading, content.nodes⟩)
      0 := by
  obtain ⟨hname, hcontent⟩ := List.forall_mem_cons.mp hsmall
  have hprops := copyProperties_puts h hn hp content hw hcontent
  exact ((Puts.beginNode hname.small).cons
    (hprops.cons (hsub.cons (Puts.endNode.cons Puts.nil)))).congr
    (copyNode_eq h hn hp (fdtFirstSubnode_here h.framed hn hp hr) k)

theorem copySubnodes_end (pfdt : FdtBuf) (k : Nat) :
    copySubnodes pfdt (k + 1) (-fdtErrNotfound) = give 0 := by
  funext fdt
  rw [copySubnodes]
  exact if_neg (by decide)

theorem copySubnodes_node {n : Nat} {r : Int} (hnext : fdtNextSubnode pfdt n = .ok r) (k : Nat)
    (fdt : FdtBuf) : copySubnodes pfdt (k + 1) n fdt =
      inOrder [copyNode pfdt k n, copySubnodes pfdt k r] fdt := by
  have hlast := inOrder_singleton (copySubnodes pfdt k r)
  simp only [inOrder, bind, Except.bind] at hlast
  simp only [copySubnodes, inOrder, if_pos (Int.natCast_nonneg n), hnext, bind, Except.bind, hlast]

theorem copySubnodes_puts (h : Libfdt.Readable pfdt) (items : FdtItems) {rest : List FdtTag}
    (hw : Walk pfdt off (items.tags ++ (.endNode :: rest))) (hoff : off % fdtTagsize = 0)
    (hsmall : ∀ tag ∈ items.tags, Copyable long tag) :
    ∃ r, Search pfdt (subnodeCont pfdt) off 0 r ∧ ∀ rounds, items.tags.length < rounds →
      Puts long (copySubnodes pfdt rounds r) items.nodes.tags 0 := by
  induction items generalizing off rest with
  | nil =>
    obtain ⟨off₁, hhere, hsearch⟩ := hw.here hoff
    obtain ⟨next, -, hp, -⟩ := hhere.endNode
    refine ⟨_, hsearch _ _ _ (subnodeCont_closed hp), fun rounds hrounds => ?_⟩
    obtain ⟨k, rfl⟩ := Nat.exists_eq_add_of_le' (show 1 ≤ rounds by omega)
    rw [copySubnodes_end]
    exact Puts.give 0
  | property p items ih =>
    obtain ⟨off₁, hhere, hsearch⟩ := hw.here hoff
    obtain ⟨next, nameoff, hnext, -, hp, hrest⟩ := Here.property hhere
    obtain ⟨r, hr, hputs⟩ := ih hrest hnext (List.forall_mem_cons.mp hsmall).2
    refine ⟨r, hsearch _ _ _ (hr.skip hp (Or.inl rfl)), fun rounds hrounds => hputs rounds ?_⟩
    simp only [FdtItems.tags, List.length_cons] at hrounds
    omega
  | node name content items ihc ihn =>
    simp only [FdtItems.tags, List.cons_append, List.append_assoc] at hw
    simp only [FdtItems.tags, List.forall_mem_cons, List.forall_mem_append] at hsmall
    obtain ⟨hname, hcontent, -, hitems⟩ := hsmall
    obtain ⟨n, hhere, hsearch⟩ := hw.here hoff
    obtain ⟨next, hnext, hp, hinside⟩ := hhere.beginNode
    obtain ⟨r₁, hr₁, hputs₁⟩ := ihc hinside hnext hcontent
    -- the next node comes after the content
    obtain ⟨off₂, hoff₂, hw₂, hover⟩ := search_items (subnodeCont_goesOn h.framed) content hinside
      hnext Nat.one_pos
    obtain ⟨off₃, hhere₃, hsearch₃⟩ := hw₂.here hoff₂
    obtain ⟨next₃, hnext₃, hp₃, hafter⟩ := hhere₃.endNode
    obtain ⟨r₂, hr₂, hputs₂⟩ := ihn hafter hnext₃ hitems
    have hsecond : fdtNextSubnode pfdt n = .ok r₂ :=
      fdtNextSubnode_here h.framed hhere.aligned hp (hover _ (hsearch₃ _ _ _ (hr₂.close hp₃)))
    refine ⟨n, hsearch _ _ _ (subnodeCont_found hp), fun rounds hrounds => ?_⟩
    simp only [FdtItems.tags, List.length_cons, List.length_append] at hrounds
    obtain ⟨k, rfl⟩ := Nat.exists_eq_add_of_le' (show 2 ≤ rounds by omega)
    have hnode := copyNode_puts h hhere.aligned hp hinside
      (List.forall_mem_cons.mpr ⟨hname, hcontent⟩) hr₁ (hputs₁ k (by omega))
    refine ((hnode.andThen (hputs₂ (k + 1) (by omega))).congr
      (copySubnodes_node hsecond (k + 1))).of_eq ?_
    simp [FdtNode.tags, FdtItems.nodes, FdtNodes.tags]

theorem copyNode_stands (h : Libfdt.Readable pfdt) {n : Nat} {name : CString} {content : FdtItems}
    (hs : Stands pfdt n name content)
    (hsmall : ∀ tag ∈ FdtTag.beginNode name :: content.tags, Copyable long tag) :
    Puts long (copyNode pfdt (pfdt.mem.length + 1) n)
      (FdtNode.tags ⟨name, content.leading, content.nodes⟩) 0 := by
  obtain ⟨rest, hhere⟩ := hs
  obtain ⟨next, hnext, hp, hinside⟩ := hhere.beginNode
  obtain ⟨r, hr, hputs⟩ := copySubnodes_puts h content hinside hnext
    (List.forall_mem_cons.mp hsmall).2
  have hroom := hinside.room
  have hlt := hp.lt
  have hsize := h.framed.size
  rw [List.length_append] at hroom
  exact copyNode_puts h hhere.aligned hp hinside hsmall hr (hputs _ (by omega))

theorem strrchr_mem {c : CChar} {text : CString} (h : c ∈ text) :
    ∃ tail, strrchr c text = some (c :: tail) := by
  induction text with
  | nil => cases h
  | cons x xs ih =>
    rw [strrchr]
    by_cases hin : c ∈ xs
    · obtain ⟨tail, htail⟩ := ih hin
      exact ⟨tail, by rw [htail]⟩
    · have hx : x = c := by
        rcases List.mem_cons.mp h with hx | hxs
        · exact hx.symm
        · exact absurd hxs hin
      exact ⟨xs, by rw [strrchr_none hin]; simp [hx]⟩

structure Partial (long : Prop) (pfdt : FdtBuf) (content : FdtItems) : Prop where
  readable : Libfdt.Readable pfdt
  root : Stands pfdt 0 [] content
  copyable : ∀ tag ∈ content.tags, Copyable long tag

/-- A path that leads nowhere, or to a node with another name, is skipped. -/
theorem copyNodeByPath_spec {content : FdtItems} (h : Partial long pfdt content) {path : CString}
    (habs : xenstoreIsAbsPath path = true) :
    (copiedNode content path = .nil ∧
      ∀ fdt, copyNodeByPath pfdt path fdt = .ok (-fdtErrNotfound, fdt)) ∨
    Puts long (copyNodeByPath pfdt path) (copiedNode content path).tags 0 := by
  have hslash : slash ∈ path := by
    cases path with
    | nil => cases habs
    | cons c cs =>
      have hc : c = slash := by simpa [xenstoreIsAbsPath] using habs
      rw [hc]
      exact List.mem_cons_self
  obtain ⟨tail, htail⟩ := strrchr_mem hslash
  obtain ⟨r, hr, hof⟩ := fdtPathOffset_root h.readable h.root habs
  cases hfound : FdtItems.lookup (tokens path) ([], content) with
  | none =>
    rw [hfound] at hof
    obtain rfl : r = -fdtErrNotfound := hof
    refine Or.inl ⟨by simp only [copiedNode, hfound], fun fdt => ?_⟩
    simp only [copyNodeByPath, htail, hr, bind, Except.bind]
    exact if_pos (by decide)
  | some node =>
    rw [hfound] at hof
    obtain ⟨n, rfl, hn⟩ := hof
    obtain ⟨rest, hhere⟩ := hn
    obtain ⟨next, hnext, hp, hinside⟩ := hhere.beginNode
    have hname := fdtGetName_here h.readable hhere.aligned hp
    have hneg : ¬ (n : Int) < 0 := by omega
    simp only [copiedNode, hfound, htail]
    by_cases hsame : node.1 = tail
    · refine Or.inr ?_
      rw [if_pos (by rw [hsame])]
      have hsmall : ∀ tag ∈ FdtTag.beginNode node.1 :: node.2.tags, Copyable long tag := by
        intro tag htag
        rcases List.mem_cons.mp (FdtItems.lookup_tags hfound tag htag) with rfl | hin
        · exact ⟨(show 0 < 2 ^ 31 - 1 by decide), fun hlong => absurd hlong (Nat.not_lt_zero 64)⟩
        · exact h.copyable tag hin
      have hcopy := copyNode_stands h.readable ⟨rest, hhere⟩ hsmall
      refine (hcopy.congr fun fdt => ?_).of_eq ?_
      · simp only [copyNodeByPath, htail, hr, hname, bind, Except.bind]
        rw [if_neg hneg]
        exact if_neg (not_not.mpr hsame)
      · rw [FdtItems.tags_ofNodes, FdtNode.tags]
    · refine Or.inl ⟨if_neg (by simpa using Ne.symm hsame), fun fdt => ?_⟩
      simp only [copyNodeByPath, htail, hr, hname, bind, Except.bind]
      rw [if_neg hneg]
      exact if_pos hsame

theorem copyDtPassthrough_copied {path : CString} {paths : List CString} {tags more : List FdtTag}
    {code : Int} (h : Puts long (copyNodeByPath pfdt path) tags 0)
    (hs : Puts long (copyDtPassthrough pfdt paths) more code) :
    Puts long (copyDtPassthrough pfdt (path :: paths)) (tags ++ more) code := by
  intro es done fdt free hshows
  rw [← List.append_assoc, totalCost_append]
  rcases h es done hshows with ⟨hrun, hlong, hfull⟩ | ⟨r, fdt₁, hrun, haddr, hlen, hcode⟩
  · exact Or.inl ⟨by simp only [copyDtPassthrough, hrun, bind, Except.bind], hlong, by omega⟩
  have hstep : copyDtPassthrough pfdt (path :: paths) fdt = if r < 0 ∧ r ≠ -fdtErrNotfound then
      .ok (r, fdt₁) else copyDtPassthrough pfdt paths fdt₁ := by
    simp only [copyDtPassthrough, hrun, bind, Except.bind, pure, Except.pure]
  rw [hstep]
  rcases hcode with ⟨rfl, free₁, hshows₁, hcost⟩ | ⟨rfl, hfull⟩
  · rw [if_neg (by decide)]
    rcases hs es (done ++ tags) hshows₁ with ⟨hrun', hlong, hfull⟩ |
      ⟨r', fdt', hrun', haddr', hlen', hcode'⟩
    · exact Or.inl ⟨hrun', hlong, by omega⟩
    refine Or.inr ⟨r', fdt', hrun', haddr'.trans haddr, hlen'.trans hlen, ?_⟩
    rcases hcode' with ⟨hr, free', hshows', hcost'⟩ | ⟨hr, hfull⟩
    · exact Or.inl ⟨hr, free', hshows', by omega⟩
    · exact Or.inr ⟨hr, by omega⟩
  · rw [if_pos (by decide)]
    exact Or.inr ⟨_, fdt₁, rfl, haddr, hlen, Or.inr ⟨rfl, by omega⟩⟩

theorem copyDtPassthrough_skipped {path : CString} {paths : List CString} {tags : List FdtTag}
    {code : Int} (h : ∀ fdt, copyNodeByPath pfdt path fdt = .ok (-fdtErrNotfound, fdt))
    (hs : Puts long (copyDtPassthrough pfdt paths) tags code) :
    Puts long (copyDtPassthrough pfdt (path :: paths)) tags code := by
  refine hs.congr fun fdt => ?_
  simp only [copyDtPassthrough, h, bind, Except.bind]
  exact if_neg (by decide)

theorem copyDtPassthrough_puts {content : FdtItems} (h : Partial long pfdt content)
    {paths : List CString} (habs : ∀ path ∈ paths, xenstoreIsAbsPath path = true) :
    Puts long (copyDtPassthrough pfdt paths)
      ((paths.map (copiedNode content)).flatMap FdtItems.tags) 0 := by
  induction paths with
  | nil => exact Puts.give 0
  | cons path paths ih =>
    obtain ⟨hpath, hpaths⟩ := List.forall_mem_cons.mp habs
    rcases copyNodeByPath_spec h hpath with ⟨hnone, hskip⟩ | hcopy
    · rw [List.map_cons, List.flatMap_cons, hnone]
      exact copyDtPassthrough_skipped hskip (ih hpaths)
    · exact copyDtPassthrough_copied hcopy (ih hpaths)

theorem copyDtPassthrough_fails {content : FdtItems} (h : Partial long pfdt content)
    {paths : List CString}
    (hpaths : ∀ path ∈ paths, slash ∈ path → xenstoreIsAbsPath path = true)
    (hbad : ∃ path ∈ paths, slash ∉ path) :
    ∃ tags, Puts long (copyDtPassthrough pfdt paths) tags (-fdtErrInternal) := by
  induction paths with
  | nil =>
    obtain ⟨path, hin, -⟩ := hbad
    cases hin
  | cons path paths ih =>
    obtain ⟨hpath, hrest⟩ := List.forall_mem_cons.mp hpaths
    by_cases hslash : slash ∈ path
    · have hbad' : ∃ path ∈ paths, slash ∉ path := by
        obtain ⟨bad, hin, hno⟩ := hbad
        rcases List.mem_cons.mp hin with rfl | hin
        · exact absurd hslash hno
        · exact ⟨bad, hin, hno⟩
      obtain ⟨tags, htags⟩ := ih hrest hbad'
      rcases copyNodeByPath_spec h (hpath hslash) with ⟨-, hskip⟩ | hcopy
      · exact ⟨tags, copyDtPassthrough_skipped hskip htags⟩
      · exact ⟨_, copyDtPassthrough_copied hcopy htags⟩
    · refine ⟨[], (Puts.give (-fdtErrInternal)).congr fun fdt => ?_⟩
      simp only [copyDtPassthrough, copyNodeByPath, strrchr_none hslash, bind, Except.bind]
      exact if_pos (by decide)

theorem copyPfdt_puts {content : FdtItems} (h : Partial long pfdt content) :
    Puts long (copyPfdt pfdt)
      (([cstr "/passthrough", cstr "/aliases"].map (copiedNode content)).flatMap FdtItems.tags) 0 :=
  copyDtPassthrough_puts h (by decide)

end

end Xenlib.DomFdt
