import Mathlib.Algebra.Group.Int.Defs
import Mathlib.Algebra.Group.Nat.Defs
import Mathlib.Logic.Function.Basic
import Mathlib.Tactic.Common

/-!
Mapping guest memory into Dom0 (`mem-mgmt.c`, without `CONFIG_XEN_REGIONS`). The physmap
says what stands behind each frame number of a domain. What the hypercalls return is
given; what they do to the physmap is the documented effect of that return.
-/

set_option autoImplicit false

namespace Xenlib

/-- A frame: the domain's own memory, a hole, or a frame of another domain. -/
inductive PhysFrame where
  | own
  | empty
  | foreign (domid gfn : Nat)
  deriving DecidableEq, Repr

abbrev PhysMap : Type := Nat → PhysFrame

def PhysMap.remove (pm : PhysMap) (pfn : Nat) : PhysMap := Function.update pm pfn .empty

/-- `count` extents of `2 ^ shift` frames, one behind the other. -/
def PhysMap.populate (pm : PhysMap) (basePfn shift count : Nat) : PhysMap :=
  fun p => if basePfn ≤ p ∧ p < basePfn + count * 2 ^ shift then .own else pm p

/-- A batch of foreign frames; a page whose error code is not 0 is left as it is. -/
def PhysMap.addForeign (pm : PhysMap) (domid basePfn baseGfn count : Nat) (err : Nat → Int) :
    PhysMap :=
  fun p =>
    if basePfn ≤ p ∧ p < basePfn + count ∧ err (p - basePfn) = 0 then
      .foreign domid (baseGfn + (p - basePfn))
    else pm p

inductive MemErr where
  | einval | enomem | efault
  deriving DecidableEq, Repr

/-- What the allocator and the hypercalls return. The batches of one call of a function are
numbered, and so are the pages. -/
structure MemCalls where
  /-- the first frame of the block -/
  alignedAlloc : Option Nat
  /-- removal of page `i` of the block, when it is taken out of Dom0 -/
  removeRc : Nat → Int
  /-- batch `k` of the additions -/
  addRc : Nat → Int
  /-- the code of page `i`, in a batch that does not fail as a whole -/
  addErr : Nat → Int
  /-- removal of page `i`, when a failed mapping is undone -/
  undoRc : Nat → Int
  /-- batch `k` of a population, for the number of extents asked for -/
  populateRet : Nat → Nat → Int

section

variable (chunk : Nat) (calls : MemCalls)

/-- The loop over the batches, from page `i` on. -/
def addToPhysmapLoop (domid nrPages : Nat) : (fuel k i basePfn baseGfn : Nat) → PhysMap →
    Nat × PhysMap
  | 0, _, i, _, _, pm => (i, pm)
  | fuel + 1, k, i, basePfn, baseGfn, pm =>
    if i < nrPages then
      let iter := min (nrPages - i) chunk
      if calls.addRc k < 0 then (i, pm)
      else
        let pm := pm.addForeign domid basePfn baseGfn iter fun j => calls.addErr (i + j)
        match (List.range iter).find? (fun j => calls.addErr (i + j) ≠ 0) with
        | some j => (if i + j = 0 then 0 else i + j - 1, pm)
        | none =>
          addToPhysmapLoop domid nrPages fuel (k + 1) (i + iter) (basePfn + iter)
            (baseGfn + iter) pm
    else (i, pm)

def xendomAddToPhysmapBatchByChunks (domid basePfn baseGfn nrPages : Nat) (pm : PhysMap) :
    Nat × PhysMap :=
  addToPhysmapLoop chunk calls domid nrPages nrPages 0 0 basePfn baseGfn pm

/-- The count is a `uint64_t` to which a negative return is added as it is. The step of the
base is computed in 32 bits. -/
def populateLoop (shift nrPages : Nat) : (fuel k i basePfn : Nat) → PhysMap → Nat × PhysMap
  | 0, _, i, _, pm => (i, pm)
  | fuel + 1, k, i, basePfn, pm =>
    if i < nrPages then
      let iter := min (nrPages - i) chunk
      let ret := calls.populateRet k iter
      let pm := pm.populate basePfn shift ret.toNat
      let i := ((i + ret) % 2 ^ 64).toNat
      if ret ≠ iter then (i, pm)
      else populateLoop shift nrPages fuel (k + 1) i (basePfn + (iter <<< shift) % 2 ^ 32) pm
    else (i, pm)

def xenmemPopulatePhysmap (basePfn shift nrPages : Nat) (pm : PhysMap) : Nat × PhysMap :=
  populateLoop chunk calls shift nrPages nrPages 0 0 basePfn pm

end

/-- Remove one page after the other; the result is the number of pages removed. -/
def regionSpaceRemoveLoop (rc : Nat → Int) (basePfn : Nat) : (left i : Nat) → PhysMap →
    Nat × PhysMap
  | 0, i, pm => (i, pm)
  | left + 1, i, pm =>
    if rc i < 0 then (i, pm)
    else regionSpaceRemoveLoop rc basePfn left (i + 1) (pm.remove (basePfn + i))

def regionSpaceRemove (rc : Nat → Int) (basePfn nrPages : Nat) (pm : PhysMap) : Nat × PhysMap :=
  regionSpaceRemoveLoop rc basePfn nrPages 0 pm

section

variable (chunk : Nat) (calls : MemCalls)

/-- The first frame of a block whose frames have been taken out of Dom0. -/
def getRegionSpace (nrPages : Nat) (pm : PhysMap) : Option Nat × PhysMap :=
  match calls.alignedAlloc with
  | none => (none, pm)
  | some basePfn =>
    let (nrPfnRemoved, pm) := regionSpaceRemove calls.removeRc basePfn nrPages pm
    if nrPfnRemoved = 0 then (none, pm)
    else if nrPfnRemoved ≠ nrPages then
      (none, (xenmemPopulatePhysmap chunk calls basePfn 0 nrPfnRemoved pm).2)
    else (some basePfn, pm)

def putRegionSpace (basePfn nrPages : Nat) (pm : PhysMap) : Except MemErr Unit × PhysMap :=
  let (populatedPfns, pm) := xenmemPopulatePhysmap chunk calls basePfn 0 nrPages pm
  if populatedPfns ≠ nrPages then (.error .efault, pm) else (.ok (), pm)

/-- `pointer` is the frame of the caller's pointer variable. The error path passes the address
of that variable, not the address it holds, to `region_space_remove`. -/
def xenmemMapRegion (domid nrPages baseGfn : Nat) (pointer : Option Nat) (pm : PhysMap) :
    Except MemErr Nat × PhysMap :=
  match pointer with
  | none => (.error .einval, pm)
  | some pointerPfn =>
    match getRegionSpace chunk calls nrPages pm with
    | (none, pm) => (.error .enomem, pm)
    | (some basePfn, pm) =>
      let (nrAddedPfns, pm) :=
        xendomAddToPhysmapBatchByChunks chunk calls domid basePfn baseGfn nrPages pm
      if nrAddedPfns ≠ nrPages then
        let pm := (regionSpaceRemove calls.undoRc pointerPfn nrAddedPfns pm).2
        (.error .enomem, (putRegionSpace chunk calls basePfn nrPages pm).2)
      else (.ok basePfn, pm)

def xenmemUnmapRegion (nrPages basePfn : Nat) (pm : PhysMap) : Except MemErr Unit × PhysMap :=
  let (nrRemovedPfns, pm) := regionSpaceRemove calls.removeRc basePfn nrPages pm
  if nrRemovedPfns ≠ nrPages then (.error .efault, pm)
  else putRegionSpace chunk calls basePfn nrPages pm

end

end Xenlib
