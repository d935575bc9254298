import Xenlib.DomFdtCopy
import Xenlib.DomFdtNodes
import Xenlib.FdtRoundTrip

/-!
The whole device tree of a domain. A configuration that can be described gets its tree if there is
room for it, and no other configuration gets one.
-/

set_option autoImplicit false

namespace Xenlib.DomFdt

open Libfdt
open GuestRam (memSize ramBanks bankRanges xenPageSize)

/-- The steps lead from one stage to the other, if there is so much room. Where there may be long
names, one of them can be too long for less room. -/
def Reaches (long : Prop) (f : FdtBuf → Except FdtStop (Except Int FdtBuf)) (stage stage' : Stage)
    (cost : Nat) : Prop :=
  ∀ ⦃fdt : FdtBuf⦄ ⦃free : Nat⦄, Shows fdt free stage →
    (f fdt = .error .wild ∧ long ∧ free < cost) ∨
    (∃ fdt', f fdt = .ok (.ok fdt') ∧ fdt'.addr = fdt.addr ∧
      fdt'.mem.length = fdt.mem.length ∧ ∃ free', Shows fdt' free' stage' ∧ free ≤ free' + cost) ∨
    (f fdt = .ok (.error (-fdtErrNospace)) ∧ free < cost)

def Fails (long : Prop) (f : FdtBuf → Except FdtStop (Except Int FdtBuf)) (stage : Stage) : Prop :=
  ∀ ⦃fdt : FdtBuf⦄ ⦃free : Nat⦄, Shows fdt free stage →
    (f fdt = .error .wild ∧ long) ∨ ∃ rc, f fdt = .ok (.error rc)

/-- The steps of `g` after those of `f`. -/
def andSteps (f g : FdtBuf → Except FdtStop (Except Int FdtBuf)) (fdt : FdtBuf) :
    Except FdtStop (Except Int FdtBuf) := do
  match ← f fdt with
  | .error rc => return .error rc
  | .ok fdt => g fdt

section
variable {long : Prop} {call : FdtCall} {calls : List FdtCall} {stage stage' stage'' : Stage}
  {code : Int} {k m : Nat} {tags more : List FdtTag} {fdt : FdtBuf}
  {f g : FdtBuf → Except FdtStop (Except Int FdtBuf)}

theorem Reaches.nil (stage : Stage) : Reaches long (steps []) stage stage 0 :=
  fun fdt free h => Or.inr (Or.inl ⟨fdt, rfl, rfl, rfl, free, h, Nat.le_refl _⟩)

theorem Reaches.of_cost (h : Reaches long f stage stage' k) (heq : k = m) :
    Reaches long f stage stage' m := heq ▸ h

theorem steps_cons {r : Int} {fdt' : FdtBuf} (hrun : call fdt = .ok (r, fdt')) :
    steps (call :: calls) fdt = if r < 0 then .ok (.error r) else steps calls fdt' := by
  simp only [steps, hrun, bind, Except.bind]
  rfl

theorem steps_wild (hrun : call fdt = .error .wild) :
    steps (call :: calls) fdt = .error .wild := by
  simp only [steps, hrun, bind, Except.bind]

theorem Reaches.cons (h : Takes long call stage stage' 0 k)
    (hs : Reaches long (steps calls) stage' stage'' m) :
    Reaches long (steps (call :: calls)) stage stage'' (k + m) := by
  intro fdt free hshows
  rcases h hshows with ⟨hrun, hlong, hfull⟩ | ⟨r, fdt₁, hrun, haddr, hlen, hcode⟩
  · exact Or.inl ⟨steps_wild hrun, hlong, by omega⟩
  rw [steps_cons hrun]
  rcases hcode with ⟨rfl, free₁, hshows₁, hcost⟩ | ⟨rfl, hfull⟩
  · rw [if_neg (by decide)]
    rcases hs hshows₁ with ⟨hrun', hlong, hfull⟩ |
      ⟨fdt', hrun', haddr', hlen', free', hshows', hcost'⟩ | ⟨hrun', hfull⟩
    · exact Or.inl ⟨hrun', hlong, by omega⟩
    · exact Or.inr (Or.inl ⟨fdt', hrun', haddr'.trans haddr, hlen'.trans hlen, free', hshows',
        by omega⟩)
    · exact Or.inr (Or.inr ⟨hrun', by omega⟩)
  · rw [if_pos (by decide)]
    exact Or.inr (Or.inr ⟨rfl, by omega⟩)

theorem Reaches.andSteps (h : Reaches long f stage stage' k)
    (hs : Reaches long g stage' stage'' m) :
    Reaches long (DomFdt.andSteps f g) stage stage'' (k + m) := by
  intro fdt free hshows
  rcases h hshows with ⟨hrun, hlong, hfull⟩ |
    ⟨fdt₁, hrun, haddr, hlen, free₁, hshows₁, hcost⟩ | ⟨hrun, hfull⟩
  · exact Or.inl ⟨by simp only [DomFdt.andSteps, hrun, bind, Except.bind], hlong, by omega⟩
  · simp only [DomFdt.andSteps, hrun, bind, Except.bind]
    rcases hs hshows₁ with ⟨hrun', hlong, hfull⟩ |
      ⟨fdt', hrun', haddr', hlen', free', hshows', hcost'⟩ | ⟨hrun', hfull⟩
    · exact Or.inl ⟨hrun', hlong, by omega⟩
    · exact Or.inr (Or.inl ⟨fdt', hrun', haddr'.trans haddr, hlen'.trans hlen, free', hshows',
        by omega⟩)
    · exact Or.inr (Or.inr ⟨hrun', by omega⟩)
  · simp only [DomFdt.andSteps, hrun, bind, Except.bind]
    exact Or.inr (Or.inr ⟨rfl, by omega⟩)

theorem Fails.here (h : Takes long call stage stage' code k) (hcode : code < 0)
    (calls : List FdtCall) : Fails long (steps (call :: calls)) stage := by
  intro fdt free hshows
  rcases h hshows with ⟨hrun, hlong, -⟩ | ⟨r, fdt₁, hrun, -, -, hr⟩
  · exact Or.inl ⟨steps_wild hrun, hlong⟩
  have hneg : r < 0 := by
    rcases hr with ⟨rfl, -⟩ | ⟨rfl, -⟩
    · exact hcode
    · decide
  exact Or.inr ⟨r, by rw [steps_cons hrun, if_pos hneg]⟩

theorem Fails.later (h : Takes long call stage stage' 0 k) (hs : Fails long (steps calls) stage') :
    Fails long (steps (call :: calls)) stage := by
  intro fdt free hshows
  rcases h hshows with ⟨hrun, hlong, -⟩ | ⟨r, fdt₁, hrun, -, -, hcode⟩
  · exact Or.inl ⟨steps_wild hrun, hlong⟩
  rw [steps_cons hrun]
  rcases hcode with ⟨rfl, free₁, hshows₁, -⟩ | ⟨rfl, -⟩
  · rw [if_neg (by decide)]
    exact hs hshows₁
  · exact Or.inr ⟨_, if_pos (by decide)⟩

theorem Fails.andSteps (h : Reaches long f stage stage' k) (hs : Fails long g stage') :
    Fails long (DomFdt.andSteps f g) stage := by
  intro fdt free hshows
  rcases h hshows with ⟨hrun, hlong, -⟩ | ⟨fdt₁, hrun, -, -, free₁, hshows₁, -⟩ | ⟨hrun, -⟩
  · exact Or.inl ⟨by simp only [DomFdt.andSteps, hrun, bind, Except.bind], hlong⟩
  · simp only [DomFdt.andSteps, hrun, bind, Except.bind]
    exact hs hshows₁
  · exact Or.inr ⟨_, by simp only [DomFdt.andSteps, hrun, bind, Except.bind]; rfl⟩

theorem Fails.andSteps_left (h : Fails long f stage) :
    Fails long (DomFdt.andSteps f g) stage := by
  intro fdt free hshows
  rcases h hshows with ⟨hrun, hlong⟩ | ⟨rc, hrun⟩
  · exact Or.inl ⟨by simp only [DomFdt.andSteps, hrun, bind, Except.bind], hlong⟩
  · exact Or.inr ⟨rc, by simp only [DomFdt.andSteps, hrun, bind, Except.bind]; rfl⟩

theorem steps_append (calls calls' : List FdtCall) :
    steps (calls ++ calls') = DomFdt.andSteps (steps calls) (steps calls') := by
  funext fdt
  induction calls generalizing fdt with
  | nil => rfl
  | cons call calls ih =>
    rw [List.cons_append]
    cases hrun : call fdt with
    | error stop => simp only [DomFdt.andSteps, steps, hrun, bind, Except.bind]
    | ok res =>
      obtain ⟨r, fdt'⟩ := res
      have hstep : DomFdt.andSteps (steps (call :: calls)) (steps calls') fdt =
          if r < 0 then .ok (.error r) else DomFdt.andSteps (steps calls) (steps calls') fdt' := by
        rw [DomFdt.andSteps, steps_cons hrun]
        split
        · rfl
        · rfl
      rw [steps_cons hrun, hstep, ih]

def Writes (long : Prop) (calls : List FdtCall) (tags : List FdtTag) : Prop :=
  ∀ es done, Reaches long (steps calls) (.building es done) (.building es (done ++ tags))
    (totalCost tags)

theorem Writes.nil : Writes long [] [] := by
  intro es done
  rw [List.append_nil]
  exact Reaches.nil _

theorem Writes.cons (h : Puts long call tags 0) (hs : Writes long calls more) :
    Writes long (call :: calls) (tags ++ more) := by
  intro es done
  rw [← List.append_assoc, totalCost_append]
  exact Reaches.cons (h es done) (hs es (done ++ tags))

theorem Writes.append {calls' : List FdtCall} (h : Writes long calls tags)
    (hs : Writes long calls' more) : Writes long (calls ++ calls') (tags ++ more) := by
  intro es done
  rw [steps_append, ← List.append_assoc, totalCost_append]
  exact Reaches.andSteps (h es done) (hs es (done ++ tags))

def Stops (long : Prop) (calls : List FdtCall) : Prop :=
  ∀ es done, Fails long (steps calls) (.building es done)

theorem Stops.here (h : Puts long call tags code) (hcode : code < 0) (calls : List FdtCall) :
    Stops long (call :: calls) := fun es done => Fails.here (h es done) hcode calls

theorem Stops.later (h : Puts long call tags 0) (hs : Stops long calls) :
    Stops long (call :: calls) :=
  fun es done => Fails.later (h es done) (hs es (done ++ tags))

theorem Stops.append {calls' : List FdtCall} (h : Writes long calls tags) (hs : Stops long calls') :
    Stops long (calls ++ calls') := by
  intro es done
  rw [steps_append]
  exact Fails.andSteps (h es done) (hs es (done ++ tags))

end

/-- The header of the partial tree is checked, all of it can be read, and this is what is in it. -/
structure Accepted (pfdt : FdtBuf) (content : FdtItems) : Prop where
  rooted : Rooted pfdt pfdt.mem.length
  enumerated : Enumerated pfdt content
  int : pfdt.mem.length < Libfdt.intMax

/-- A property of the partial tree has a name of 64 characters or more. -/
def LongNamed (partialTree : Option FdtItems) : Prop :=
  ∃ content ∈ partialTree, ∃ tag ∈ content.tags, 64 < tag.nameSize

theorem Accepted.partial {pfdt : FdtBuf} {content : FdtItems} (h : Accepted pfdt content) :
    Partial (LongNamed (some content)) pfdt content := by
  obtain ⟨next, name, hp⟩ := h.rooted.beginNode
  obtain ⟨hname, hinside⟩ := hp.walk_node h.enumerated.walk
  obtain rfl := FdtTag.beginNode.inj hname
  have hsmall := h.enumerated.walk.small h.int
  exact ⟨h.enumerated.readable h.rooted.framed h.rooted.version,
    ⟨[], rfl, _, _, hp, .beginNode [], hinside⟩,
    fun tag htag => ⟨hsmall tag (List.mem_cons_of_mem _ (List.mem_append_left _ htag)),
      fun hlong => ⟨content, rfl, tag, htag, hlong⟩⟩⟩

theorem Accepted.checkFdt {pfdt : FdtBuf} {content : FdtItems} (h : Accepted pfdt content) :
    DomFdt.checkFdt pfdt pfdt.mem.length = 0 := by
  have hmagic := ((fdtCheckHeader_iff pfdt).mp h.rooted.checked).magic
  have hfits := h.rooted.fits
  rw [DomFdt.checkFdt, if_neg (not_not.mpr hmagic), if_neg (not_not.mpr h.rooted.checked),
    if_neg (by omega)]

section
variable {long : Prop} {cfg : DomDtCfg} {major minor : UInt32} {pfdt : Option FdtBuf}
  {partialTree : Option FdtItems} {info : Except Int Nat} {gpaddrBits : Nat}

def firstTags (major minor : UInt32) (cfg : DomDtCfg) : List FdtTag :=
  .beginNode [] :: ((rootProps major minor cfg).map FdtProperty.tag ++
    ((chosenNode cfg.cmdline).tags ++ ((cpusNode cfg.numVcpus).tags ++ (psciNode.tags ++
      ((bankRanges ramBanks (memSize cfg.toXenDomainCfg)).map memoryNode).flatMap
        FdtItems.tags))))

def firstSteps (major minor : UInt32) (cfg : DomDtCfg) : List FdtCall :=
  [fdtBeginNode [], createRoot major minor cfg, createChosen cfg.cmdline,
    createCpus cfg.numVcpus, createPsci, createMemory (memSize cfg.toXenDomainCfg)]

theorem finishReservemap_takes (long : Prop) :
    Takes long fdtFinishReservemap (.reserving []) (.building [] []) 0 16 :=
  @Takes.writerCall long _ _ .finishReservemap rfl trivial
    fun _ hput => by cases hput

theorem finish_takes (es : List (Nat × Nat)) (tags : List FdtTag) :
    Takes long fdtFinish (.building es tags) (.complete es tags) 0 4 :=
  @Takes.writerCall long _ _ .finish rfl trivial
    fun _ hput => by cases hput

theorem endSteps_reach (es : List (Nat × Nat)) (tags : List FdtTag) :
    Reaches long (steps [fdtEndNode, fdtFinish]) (.building es tags)
      (.complete es (tags ++ [.endNode])) (totalCost [.endNode] + (4 + 0)) :=
  Reaches.cons (Puts.endNode es tags) (Reaches.cons (finish_takes es _) (Reaches.nil _))

theorem rootNode_puts : Puts long (fdtBeginNode []) [.beginNode []] 0 := Puts.beginNode (by decide)

theorem firstSteps_writes (hcmd : ∀ s ∈ cfg.cmdline, s.length < 2 ^ 31 - 1)
    (hcompat : ((rootCompats major minor cfg.machineDtCompat).flatMap strBytes).length ≤
      fdtStringMax)
    (hmem : memSize cfg.toXenDomainCfg ≤ (ramBanks.map Prod.snd).sum) :
    Writes long (firstSteps major minor cfg) (firstTags major minor cfg) := by
  have hmemory := @createMemory_puts long (memSize cfg.toXenDomainCfg)
  rw [if_pos hmem] at hmemory
  have h : Writes long (firstSteps major minor cfg) _ :=
    .cons rootNode_puts (.cons (createRoot_puts hcompat) (.cons (createChosen_puts hcmd)
      (.cons (createCpus_puts _) (.cons createPsci_puts (.cons hmemory .nil)))))
  rw [List.append_nil] at h
  exact h

theorem firstSteps_stops (hcmd : ∀ s ∈ cfg.cmdline, s.length < 2 ^ 31 - 1)
    (h : ¬ (((rootCompats major minor cfg.machineDtCompat).flatMap strBytes).length ≤
      fdtStringMax ∧ memSize cfg.toXenDomainCfg ≤ (ramBanks.map Prod.snd).sum)) :
    Stops long (firstSteps major minor cfg) := by
  refine Stops.later rootNode_puts ?_
  by_cases hcompat : ((rootCompats major minor cfg.machineDtCompat).flatMap strBytes).length ≤
      fdtStringMax
  · have hmemory := @createMemory_puts long (memSize cfg.toXenDomainCfg)
    rw [if_neg fun hmem => h ⟨hcompat, hmem⟩] at hmemory
    exact .later (createRoot_puts hcompat) (.later (createChosen_puts hcmd)
      (.later (createCpus_puts _) (.later createPsci_puts (.here hmemory (by decide) _))))
  · obtain ⟨tags, hroot⟩ := createRoot_long hcompat
    exact .here hroot (by decide) _

def copySteps (cfg : DomDtCfg) : Option FdtBuf → List FdtCall
  | none => []
  | some pfdt => [copyPfdt pfdt, copyDtPassthrough pfdt cfg.dtPassthrough]

theorem copySteps_writes (hpfdt : Option.Rel Accepted pfdt partialTree)
    (habs : ∀ path ∈ cfg.dtPassthrough, slash ∈ path → xenstoreIsAbsPath path = true)
    (hslash : partialTree ≠ none → ∀ path ∈ cfg.dtPassthrough, slash ∈ path) :
    Writes (LongNamed partialTree) (copySteps cfg pfdt)
      ((copiedNodes cfg partialTree).flatMap FdtItems.tags) := by
  cases hpfdt with
  | none => exact .nil
  | some hp =>
    have hpaths := copyDtPassthrough_puts hp.partial fun path hin =>
      habs path hin (hslash (by simp) path hin)
    have h := Writes.cons (copyPfdt_puts hp.partial) (.cons hpaths .nil)
    rw [List.append_nil, ← List.flatMap_append, ← List.map_append] at h
    exact h

theorem copySteps_stops (hpfdt : Option.Rel Accepted pfdt partialTree)
    (habs : ∀ path ∈ cfg.dtPassthrough, slash ∈ path → xenstoreIsAbsPath path = true)
    (hslash : ¬ (partialTree ≠ none → ∀ path ∈ cfg.dtPassthrough, slash ∈ path)) :
    Stops (LongNamed partialTree) (copySteps cfg pfdt) := by
  cases hpfdt with
  | none => exact absurd (fun h => absurd rfl h) hslash
  | some hp =>
    have hbad : ∃ path ∈ cfg.dtPassthrough, slash ∉ path := by
      by_contra hall
      exact hslash fun _ path hin => by_contra fun hno => hall ⟨path, hin, hno⟩
    obtain ⟨tags, hfails⟩ := copyDtPassthrough_fails hp.partial habs hbad
    exact .later (copyPfdt_puts hp.partial) (.here hfails (by decide) [])

def gicCall (cfg : DomDtCfg) : FdtCall :=
  if cfg.gicVersion = configGicV2 then createGicv2 else createGicv3

theorem gicCall_puts (cfg : DomDtCfg) : Puts long (gicCall cfg)
    (if cfg.gicVersion = configGicV2 then gicv2Node else gicv3Node).tags 0 := by
  rw [gicCall]
  split_ifs
  · exact createGicv2_puts
  · exact createGicv3_puts

def opteeSteps (cfg : DomDtCfg) : List FdtCall :=
  if cfg.teeType = configTeeOptee then [createOptee] else []

theorem opteeSteps_writes (cfg : DomDtCfg) : Writes long (opteeSteps cfg)
    (if cfg.teeType = configTeeOptee then opteeNode else .nil).tags := by
  rw [opteeSteps]
  split_ifs
  · have h : Writes long _ _ := .cons createOptee_puts .nil
    rw [List.append_nil] at h
    exact h
  · exact .nil

def nodeSteps (cfg : DomDtCfg) (major minor : UInt32) (pfdt : Option FdtBuf)
    (info : Except Int Nat) : List FdtCall :=
  [gicCall cfg, createTimer 0, createHypervisor major minor cfg info] ++ opteeSteps cfg ++
    copySteps cfg pfdt

theorem writeTree_eq (hgic : cfg.gicVersion = configGicV2 ∨ cfg.gicVersion = configGicV3) :
    writeTree cfg major minor pfdt info =
      andSteps (steps (fdtFinishReservemap :: firstSteps major minor cfg))
        (steps (nodeSteps cfg major minor pfdt info ++ [fdtEndNode, fdtFinish])) := by
  have hlast : nodeSteps cfg major minor pfdt info ++ [fdtEndNode, fdtFinish] =
      gicCall cfg :: lastSteps cfg major minor pfdt info := by
    cases pfdt <;> rfl
  rw [hlast, gicCall]
  funext fdt
  refine bind_congr fun res => ?_
  cases res with
  | error rc => rfl
  | ok fdt' =>
    rcases hgic with h | h
    · simp only [h, if_pos]
    · simp only [h, show ¬ configGicV3 = configGicV2 by decide, if_pos, if_false]

theorem writeTree_unknown
    (hgic : ¬ (cfg.gicVersion = configGicV2 ∨ cfg.gicVersion = configGicV3)) :
    writeTree cfg major minor pfdt info =
      andSteps (steps (fdtFinishReservemap :: firstSteps major minor cfg))
        fun _ => .ok (.error fdtErrBadvalue) := by
  obtain ⟨h2, h3⟩ := not_or.mp hgic
  funext fdt
  simp only [writeTree, andSteps, firstSteps, if_neg h2, if_neg h3]
  rfl

def nodeTags (cfg : DomDtCfg) (major minor : UInt32) (partialTree : Option FdtItems)
    (gpaddrBits : Nat) : List FdtTag :=
  ([if cfg.gicVersion = configGicV2 then gicv2Node else gicv3Node, timerNode,
      hypervisorNode major minor (extendedRegions gpaddrBits cfg),
      if cfg.teeType = configTeeOptee then opteeNode else .nil] ++
    copiedNodes cfg partialTree).flatMap FdtItems.tags

theorem nodeSteps_writes (h : Describable cfg major minor partialTree info gpaddrBits)
    (hpfdt : Option.Rel Accepted pfdt partialTree)
    (habs : ∀ path ∈ cfg.dtPassthrough, slash ∈ path → xenstoreIsAbsPath path = true) :
    Writes (LongNamed partialTree) (nodeSteps cfg major minor pfdt info)
      (nodeTags cfg major minor partialTree gpaddrBits) := by
  have hnodes : Writes (LongNamed partialTree)
      [gicCall cfg, createTimer 0, createHypervisor major minor cfg info] _ :=
    .cons (gicCall_puts cfg) (.cons createTimer_puts (.cons (h.info ▸
      createHypervisor_puts h.bits h.regions) .nil))
  have hall := (hnodes.append (opteeSteps_writes cfg)).append
    (copySteps_writes hpfdt habs h.paths)
  simpa only [nodeTags, nodeSteps, List.flatMap_append, List.flatMap_cons, List.flatMap_nil,
    List.append_nil, List.append_assoc] using hall

theorem nodeSteps_stops (hinfo : ∀ rc, info = .error rc → rc < 0)
    (hpfdt : Option.Rel Accepted pfdt partialTree)
    (habs : ∀ path ∈ cfg.dtPassthrough, slash ∈ path → xenstoreIsAbsPath path = true)
    (h : ¬ ((∃ gpaddrBits, info = .ok gpaddrBits ∧ gpaddrBits ≤ 64 ∧
      extendedRegions gpaddrBits cfg ≠ []) ∧
      (partialTree ≠ none → ∀ path ∈ cfg.dtPassthrough, slash ∈ path))) :
    Stops (LongNamed partialTree) (nodeSteps cfg major minor pfdt info) := by
  by_cases hregions : ∃ gpaddrBits, info = .ok gpaddrBits ∧ gpaddrBits ≤ 64 ∧
      extendedRegions gpaddrBits cfg ≠ []
  · have hcopies := copySteps_stops hpfdt habs fun hslash => h ⟨hregions, hslash⟩
    obtain ⟨bits, rfl, hbits, hsome⟩ := hregions
    have hnodes : Writes (LongNamed partialTree)
        [gicCall cfg, createTimer 0, createHypervisor major minor cfg _] _ :=
      .cons (gicCall_puts cfg) (.cons createTimer_puts (.cons
        (createHypervisor_puts hbits hsome) .nil))
    exact .append (hnodes.append (opteeSteps_writes cfg)) hcopies
  · obtain ⟨rc, hneg, tags, hfails⟩ := @createHypervisor_fails _ major minor cfg info hinfo hregions
    exact .later (gicCall_puts cfg) (.later createTimer_puts (.here hfails hneg _))

theorem domainTree_tags (cfg : DomDtCfg) (major minor : UInt32) (partialTree : Option FdtItems)
    (gpaddrBits : Nat) :
    (FdtItems.node [] (domainTree cfg major minor partialTree gpaddrBits) .nil).tags =
      firstTags major minor cfg ++ nodeTags cfg major minor partialTree gpaddrBits ++
        [.endNode] := by
  simp [domainTree, firstTags, nodeTags, FdtItems.tags]

theorem writeTree_reaches (h : Describable cfg major minor partialTree info gpaddrBits)
    (hcmd : ∀ s ∈ cfg.cmdline, s.length < 2 ^ 31 - 1)
    (hpfdt : Option.Rel Accepted pfdt partialTree)
    (habs : ∀ path ∈ cfg.dtPassthrough, slash ∈ path → xenstoreIsAbsPath path = true) :
    Reaches (LongNamed partialTree) (writeTree cfg major minor pfdt info) (.reserving [])
      (.complete [] (FdtItems.node [] (domainTree cfg major minor partialTree gpaddrBits)
        .nil).tags)
      (20 + totalCost (FdtItems.node [] (domainTree cfg major minor partialTree gpaddrBits)
        .nil).tags) := by
  have hfirst := Reaches.cons (finishReservemap_takes (LongNamed partialTree))
    (firstSteps_writes hcmd h.compat h.memory [] [])
  have hnodes := nodeSteps_writes h hpfdt habs [] ([] ++ firstTags major minor cfg)
  have hall := Reaches.andSteps hfirst (Reaches.andSteps hnodes (endSteps_reach [] _))
  have hcost : totalCost [.endNode] = 4 := rfl
  rw [writeTree_eq h.gic, steps_append, domainTree_tags, totalCost_append, totalCost_append]
  refine Reaches.of_cost hall ?_
  omega

theorem writeTree_fails (hinfo : ∀ rc, info = .error rc → rc < 0)
    (hcmd : ∀ s ∈ cfg.cmdline, s.length < 2 ^ 31 - 1)
    (hpfdt : Option.Rel Accepted pfdt partialTree)
    (habs : ∀ path ∈ cfg.dtPassthrough, slash ∈ path → xenstoreIsAbsPath path = true)
    (h : ¬ ∃ gpaddrBits, Describable cfg major minor partialTree info gpaddrBits) :
    Fails (LongNamed partialTree) (writeTree cfg major minor pfdt info) (.reserving []) := by
  by_cases hfirst : ((rootCompats major minor cfg.machineDtCompat).flatMap strBytes).length ≤
      fdtStringMax ∧ memSize cfg.toXenDomainCfg ≤ (ramBanks.map Prod.snd).sum
  · have hsteps := Reaches.cons (finishReservemap_takes (LongNamed partialTree))
      (firstSteps_writes hcmd hfirst.1 hfirst.2 [] [])
    by_cases hgic : cfg.gicVersion = configGicV2 ∨ cfg.gicVersion = configGicV3
    · have hstops : Stops (LongNamed partialTree) (nodeSteps cfg major minor pfdt info) := by
        refine nodeSteps_stops hinfo hpfdt habs ?_
        rintro ⟨⟨bits, hok, hbits, hsome⟩, hslash⟩
        exact h ⟨bits, hfirst.1, hfirst.2, hgic, hok, hbits, hsome, hslash⟩
      rw [writeTree_eq hgic, steps_append]
      exact Fails.andSteps hsteps (Fails.andSteps_left (hstops [] _))
    · rw [writeTree_unknown hgic]
      exact Fails.andSteps hsteps fun fdt free _ => Or.inr ⟨_, rfl⟩
  · have hstops := Fails.later (finishReservemap_takes (LongNamed partialTree))
      (firstSteps_stops hcmd hfirst [] [])
    by_cases hgic : cfg.gicVersion = configGicV2 ∨ cfg.gicVersion = configGicV3
    · rw [writeTree_eq hgic]
      exact Fails.andSteps_left hstops
    · rw [writeTree_unknown hgic]
      exact Fails.andSteps_left hstops

end

def treeSize (cfg : DomDtCfg) (major minor : UInt32) (partialTree : Option FdtItems)
    (gpaddrBits : Nat) : Nat :=
  createHdrsize + (20 + totalCost (FdtItems.node []
    (domainTree cfg major minor partialTree gpaddrBits) .nil).tags)

def Generated (cfg : DomDtCfg) (major minor : UInt32) (partialTree : Option FdtItems)
    (info : Except Int Nat) (buf : Bytes) : Except Errno FdtBuf → Prop
  | .ok fdt => ∃ gpaddrBits, Describable cfg major minor partialTree info gpaddrBits ∧
      fdtCheckFull fdt buf.length = .ok 0 ∧
      Enumerated fdt (domainTree cfg major minor partialTree gpaddrBits)
  | .error err => (err = .enomem ∨ err = .einval) ∧
      ∀ gpaddrBits, Describable cfg major minor partialTree info gpaddrBits →
        err = .enomem ∧ buf.length < treeSize cfg major minor partialTree gpaddrBits

theorem fdtToErrno_cases (rc : Int) : fdtToErrno rc = .enomem ∨ fdtToErrno rc = .einval := by
  rw [fdtToErrno]
  split
  · exact Or.inl rfl
  · exact Or.inr rfl

section
variable {cfg : DomDtCfg} {major minor : UInt32} {pfdt : Option FdtBuf}
  {partialTree : Option FdtItems} {info : Except Int Nat} {addr : Nat} {buf : Bytes}

theorem checkFdt_accepted (hpfdt : Option.Rel Accepted pfdt partialTree) :
    ¬ (pfdt.any fun pfdt => checkFdt pfdt pfdt.mem.length ≠ 0) = true := by
  cases hpfdt with
  | none => exact Bool.false_ne_true
  | some hp => simp [hp.checkFdt]

theorem genDomainFdt_written (hpfdt : Option.Rel Accepted pfdt partialTree) {fdt : FdtBuf}
    (hcreate : fdtCreate addr buf = .ok fdt) {r : Except Int FdtBuf}
    (hrun : writeTree cfg major minor pfdt info fdt = .ok r) :
    genDomainFdt cfg major minor pfdt info (some (addr, buf)) = .ok (r.mapError fdtToErrno) := by
  simp only [genDomainFdt, if_neg (checkFdt_accepted hpfdt), hcreate, hrun, bind, Except.bind]
  cases r with
  | error rc => rfl
  | ok fdt' => rfl

theorem genDomainFdt_wild (hpfdt : Option.Rel Accepted pfdt partialTree) {fdt : FdtBuf}
    (hcreate : fdtCreate addr buf = .ok fdt)
    (hrun : writeTree cfg major minor pfdt info fdt = .error .wild) :
    genDomainFdt cfg major minor pfdt info (some (addr, buf)) = .error .wild := by
  simp only [genDomainFdt, if_neg (checkFdt_accepted hpfdt), hcreate, hrun, bind, Except.bind]

theorem genDomainFdt_short (hpfdt : Option.Rel Accepted pfdt partialTree)
    (hsize : buf.length < createHdrsize) :
    genDomainFdt cfg major minor pfdt info (some (addr, buf)) = .ok (.error .enomem) := by
  have hcreate : fdtCreateWithFlags addr buf 0 = .error (-fdtErrNospace) := dif_pos hsize
  simp only [genDomainFdt, if_neg (checkFdt_accepted hpfdt), fdtCreate, hcreate]
  rfl

variable (haddr : addr % xenPageSize = 0) (hmax : buf.length < Libfdt.intMax)
  (hcmd : ∀ s ∈ cfg.cmdline, s.length < 2 ^ 31 - 1)
  (hpfdt : Option.Rel Accepted pfdt partialTree)
  (habs : ∀ path ∈ cfg.dtPassthrough, slash ∈ path → xenstoreIsAbsPath path = true)

include haddr hmax hcmd hpfdt habs

/-- A configuration that can be described gets its tree, if there is room for it. Without it the
name of a property that is copied can be too long. -/
theorem genDomainFdt_described {bits : Nat}
    (hbits : Describable cfg major minor partialTree info bits) :
    (∃ fdt, genDomainFdt cfg major minor pfdt info (some (addr, buf)) = .ok (.ok fdt) ∧
      fdtCheckFull fdt buf.length = .ok 0 ∧
      Enumerated fdt (domainTree cfg major minor partialTree bits)) ∨
    ((genDomainFdt cfg major minor pfdt info (some (addr, buf)) = .ok (.error .enomem) ∨
      genDomainFdt cfg major minor pfdt info (some (addr, buf)) = .error .wild ∧
        LongNamed partialTree) ∧
      buf.length < treeSize cfg major minor partialTree bits) := by
  simp only [Libfdt.intMax] at hmax
  rw [treeSize]
  by_cases hsize : buf.length < createHdrsize
  · exact Or.inr ⟨Or.inl (genDomainFdt_short hpfdt hsize), by omega⟩
  · obtain ⟨fdt, hcreate, hshows, haddr', hlen⟩ :=
      fdtCreateWithFlags_shows addr (Nat.le_of_not_lt hsize) (by omega) (Nat.zero_le 1)
    rcases writeTree_reaches hbits hcmd hpfdt habs hshows with ⟨hrun, hlong, hfull⟩ |
      ⟨fdt', hrun, haddr'', hlen', free', hshows', -⟩ | ⟨hrun, hfull⟩
    · exact Or.inr ⟨Or.inr ⟨genDomainFdt_wild hpfdt hcreate hrun, hlong⟩, by omega⟩
    · have haddr₀ : fdt'.addr % 8 = 0 := by
        rw [haddr'', haddr']
        rw [xenPageSize] at haddr
        omega
      obtain ⟨hall, htree⟩ := hshows'.accepted haddr₀ (by rw [hlen', hlen, Libfdt.intMax]; omega)
      rw [hlen', hlen] at hall
      exact Or.inl ⟨fdt', genDomainFdt_written hpfdt hcreate hrun, hall, htree⟩
    · exact Or.inr ⟨Or.inl (genDomainFdt_written hpfdt hcreate hrun), by omega⟩

omit haddr in
theorem genDomainFdt_refused (hinfo : ∀ rc, info = .error rc → rc < 0)
    (hdesc : ¬ ∃ bits, Describable cfg major minor partialTree info bits) :
    (genDomainFdt cfg major minor pfdt info (some (addr, buf)) = .error .wild ∧
      LongNamed partialTree) ∨
    ∃ err, genDomainFdt cfg major minor pfdt info (some (addr, buf)) = .ok (.error err) ∧
      (err = .enomem ∨ err = .einval) := by
  simp only [Libfdt.intMax] at hmax
  by_cases hsize : buf.length < createHdrsize
  · exact Or.inr ⟨.enomem, genDomainFdt_short hpfdt hsize, Or.inl rfl⟩
  · obtain ⟨fdt, hcreate, hshows, -, -⟩ :=
      fdtCreateWithFlags_shows addr (Nat.le_of_not_lt hsize) (by omega) (Nat.zero_le 1)
    rcases writeTree_fails hinfo hcmd hpfdt habs hdesc hshows with ⟨hrun, hlong⟩ | ⟨rc, hrun⟩
    · exact Or.inl ⟨genDomainFdt_wild hpfdt hcreate hrun, hlong⟩
    · exact Or.inr ⟨fdtToErrno rc, genDomainFdt_written hpfdt hcreate hrun, fdtToErrno_cases rc⟩

end

def plainCfg : DomDtCfg where
  toXenDomainCfg := { GuestRam.bareCfg 131072 with maxVcpus := 2 }
  machineDtCompat := none
  cmdline := some (cstr "console=hvc0")
  gicVersion := configGicV3
  teeType := 0
  dtPassthrough := []

end Xenlib.DomFdt
