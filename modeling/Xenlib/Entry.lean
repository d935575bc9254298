import Xenlib.Path
import Xenlib.Lib.Forest

/-!
The node tree of the server: `struct xs_entry`, access checks, lookup by key, and the
functions that write, remove and strip nodes. A pointer to a node is modelled by the
list of keys that lead to it from the root.
-/

set_option autoImplicit false

namespace Xenlib

open Keyed

/-- The value and the permission list of a node; its key and its children are kept by the tree. -/
structure XsNode where
  value : Option CString
  perms : List XsPermEntry
  deriving DecidableEq, Repr

abbrev EntryList := Forest CString XsNode

abbrev XsEntry := Tree CString XsNode

structure EntryRef where
  path : List CString
  entry : XsEntry
  deriving DecidableEq, Repr

def isOwner (entry : XsNode) (callerDomid : UInt32) : Bool :=
  entry.perms.head?.any fun owner => owner.domid.toUInt32 = callerDomid

def checkPerms (entry : XsNode) (perms : XsPerm) (callerDomid : UInt32) : Except Fault Bool :=
  if callerDomid = 0 || isOwner entry callerDomid then .ok true
  else match entry.perms.find? fun iter => iter.domid.toUInt32 = callerDomid with
    | some iter => .ok (iter.perm.allows perms)
    | none =>
      match entry.perms.head? with
      | none => .error .emptyPerms
      | some defaultPerms => .ok (defaultPerms.perm.allows perms)

/-- The strtok loop of `key_to_entry`: a key without components finds nothing. -/
def entryAt (root : XsEntry) : List CString → Option EntryRef
  | [] => none
  | toks => (root.lookup toks).map fun e => ⟨toks, e⟩

def keyToEntry (root : XsEntry) (key : CString) : AllocM (Option EntryRef) := do
  if key.length > xenstoreAbsPathMax then pure none
  else if xenstoreIsRootPath key then pure (some ⟨[], root⟩)
  else if ← kMalloc then pure (entryAt root (tokens key))
  else pure none

def checkPermsForEntry (entry : Option EntryRef) (domid : UInt32) (perms : XsPerm) :
    Except Fault Bool :=
  match entry with
  | none => .ok false
  | some e => checkPerms e.entry.label perms domid

def keyToEntryCheckPerm (root : XsEntry) (key : CString) (domid : UInt32) (perms : XsPerm) :
    AllocM (Option EntryRef) := do
  let entry ← keyToEntry root key
  if ← Wp.lift (checkPermsForEntry entry domid perms) then pure entry else pure none

/-- The new list is complete before the old one is freed. -/
def setPermsByArray (entry : XsNode) (newPerms : List XsPermEntry) :
    AllocM (Option Errno × XsNode) := do
  if ← kMallocs newPerms.length then pure (none, { entry with perms := newPerms })
  else pure (some .enomem, entry)

def deserializePerms (strings : Bytes) : AllocM (Option (List XsPermEntry)) := do
  match xenstorePermParseWire strings none with
  | .error _ => pure none
  | .ok counted =>
    if counted.length = 0 then pure none
    else if ← kMalloc then
      match xenstorePermParseWire strings (some counted.length) with
      | .error _ => pure none
      | .ok perms => if perms.length = counted.length then pure (some perms) else pure none
    else pure none

def setPermsByStrings (entry : XsNode) (permStr : Bytes) : AllocM (Option Errno × XsNode) := do
  match ← deserializePerms permStr with
  | none => pure (some .einval, entry)
  | some newPerms => setPermsByArray entry newPerms

def inheritPerms (entry : XsNode) (parentEntry : Option XsNode) (ownerDomid : UInt32) :
    AllocM (Option Errno × XsNode) := do
  match parentEntry with
  | none =>
    if ← kMalloc then
      pure (none, { entry with perms := entry.perms ++ [⟨ownerDomid.toUInt16, .none⟩] })
    else pure (some .enomem, entry)
  | some parent =>
    if ← kMallocs parent.perms.length then
      pure (none, { entry with perms := entry.perms ++ parent.perms })
    else pure (some .enomem, { entry with perms := [] })

/-- `set_perms_by_array` when the caller passed permissions, `inherit_perms` otherwise. -/
def newEntryPerms (perms : List XsPermEntry) (parent : XsNode) (domid : UInt32) :
    AllocM (Option Errno × XsNode) :=
  if perms ≠ [] then setPermsByArray ⟨none, []⟩ perms
  else inheritPerms ⟨none, []⟩ (some parent) domid

def writeValue (data : Option CString) (domid : UInt32) (iter : XsEntry) :
    AllocM (Option Errno × XsEntry) := do
  match data with
  | none => pure (none, iter)
  | some value =>
    if ← Wp.lift (checkPerms iter.label .write domid) then
      if ← kMalloc then
        pure (none, { iter with label := { iter.label with value := some value } })
      else pure (some .enomem, iter)
    else pure (some .eacces, iter)

/-- The walk below `parent`. `inserted` tells whether `insert_entry` is already set; the first
new node is the one that is freed again on an error, unless setting its own permissions is
what failed. -/
def writeWalk (data : Option CString) (domid : UInt32) (perms : List XsPermEntry) :
    List CString → Bool → XsEntry → AllocM (Option Errno × XsEntry)
  | [], _, iter => writeValue data domid iter
  | tok :: toks, inserted, parent => do
    match parent.children.find? tok with
    | some iter =>
      let (rc, iter) ← writeWalk data domid perms toks inserted iter
      pure (rc, { parent with children := parent.children.set tok iter })
    | none =>
      if !(← Wp.lift (checkPerms parent.label .write domid)) then pure (some .eacces, parent)
      else if !(← kMalloc) then pure (some .enomem, parent)
      else if !(← kMalloc) then pure (some .enomem, parent)
      else
        match ← newEntryPerms perms parent.label domid with
        | (some rc, node) =>
          pure (some rc, { parent with children := parent.children.append tok ⟨node, .nil⟩ })
        | (none, node) =>
          let (rc, iter) ← writeWalk data domid perms toks true ⟨node, .nil⟩
          if rc.isSome && !inserted then pure (rc, parent)
          else pure (rc, { parent with children := parent.children.append tok iter })

/-- The section of `xss_do_write_deadline` under the lock. -/
def writeTree (path : CString) (data : Option CString) (domid : UInt32)
    (perms : List XsPermEntry) (root : XsEntry) : AllocM (Option Errno × XsEntry) :=
  match tokens path with
  | [] => pure (none, root)
  | toks => writeWalk data domid perms toks false root

/-- `free_node` of a node below the root. -/
def freeNode (root : XsEntry) (entry : EntryRef) : XsEntry := root.remove entry.path

/-- The node without the permission entries of `domid`. -/
def stripPerms (domid : UInt32) (node : XsNode) : XsNode :=
  { node with perms := node.perms.filter fun p => p.domid.toUInt32 ≠ domid }

/-- Drop the nodes `domid` owns, and its entries in the permission lists of the others. -/
def removeRefEntriesRecursive (domid : UInt32) : EntryList → Except Fault EntryList
  | .nil => .ok .nil
  | .cons key node children next =>
    match node.perms.head? with
    | none => .error .emptyPerms
    | some owner =>
      if owner.domid.toUInt32 = domid then removeRefEntriesRecursive domid next
      else
        match removeRefEntriesRecursive domid children, removeRefEntriesRecursive domid next with
        | .ok children, .ok next => .ok (.cons key (stripPerms domid node) children next)
        | .error e, _ => .error e
        | _, .error e => .error e

end Xenlib
