import Xenlib.Notification
import Xenlib.PermWire
import Xenlib.ReadBack

/-!
The calls of Dom0 that read a node into memory of the caller. What does not fit is cut off, and
the result is the full length all the same.
-/

set_option autoImplicit false

namespace Xenlib

open Keyed Wp

section Memory
variable {α : Type}

def memcpy (mem : List α) (off : Nat) (data : List α) : List α :=
  mem.take off ++ data ++ mem.drop (off + data.length)

theorem memcpy_nil (mem : List α) (off : Nat) : memcpy mem off [] = mem := by simp [memcpy]

theorem memcpy_start (mem data : List α) : memcpy mem 0 data = data ++ mem.drop data.length := by
  simp [memcpy]

theorem memcpy_length {mem data : List α} {off : Nat} (h : off + data.length ≤ mem.length) :
    (memcpy mem off data).length = mem.length := by
  simp only [memcpy, List.length_append, List.length_take, List.length_drop]
  omega

theorem memcpy_memcpy {mem first second : List α} {off : Nat}
    (h : off + first.length ≤ mem.length) :
    memcpy (memcpy mem off first) (off + first.length) second =
      memcpy mem off (first ++ second) := by
  have hlen : (mem.take off ++ first).length = off + first.length := by
    rw [List.length_append, List.length_take]
    omega
  have htake : (memcpy mem off first).take (off + first.length) = mem.take off ++ first := by
    rw [memcpy, ← hlen, List.take_left]
  have hdrop : (memcpy mem off first).drop (off + first.length + second.length) =
      mem.drop (off + (first.length + second.length)) := by
    rw [memcpy, List.drop_append, List.drop_eq_nil_of_le (by omega), hlen, List.nil_append,
      List.drop_drop]
    congr 1
    omega
  rw [memcpy, htake, hdrop, memcpy, List.length_append, List.append_assoc (mem.take off)]

theorem set_eq_memcpy {mem : List α} {i : Nat} (a : α) (h : i < mem.length) :
    mem.set i a = memcpy mem i [a] := by
  rw [List.set_eq_take_append_cons_drop, if_pos h, memcpy, List.append_assoc]
  rfl

end Memory

/-- The shape of the calls: check the arguments, resolve the path, lock, look the node up. `total`
is the result, and `fill` what they leave in memory of this length. -/
def xsGetWith {α : Type} (total : XsEntry → Nat) (fill : XsEntry → Nat → List α → List α)
    (path : Option CString) (buf : Option (List α)) (len : Nat) (txId : UInt32)
    (tout : Deadline) : SrvM (Except Errno Nat × Option (List α)) := do
  match path with
  | none => pure (.error .einval, buf)
  | some path =>
    if 0 < len && buf.isNone then pure (.error .einval, buf)
    else if txId ≠ 0 then pure (.error .enotsup, buf)
    else match ← alloc (constructPath path 0) with
      | .error e => pure (.error e, buf)
      | .ok localPath =>
        match ← xssMutexLockDeadline tout with
        | some e => pure (.error e, buf)
        | none =>
          let s ← get
          match ← alloc (keyToEntryCheckPerm s.root localPath 0 .read) with
          | none => pure (.error .enoent, buf)
          | some entry =>
            pure (.ok (total entry.entry), if 0 < len then buf.map (fill entry.entry len) else buf)

/-- `entry->value ? entry->value : ""`. -/
def entryValue (entry : XsEntry) : CString := entry.label.value.getD []

def strlcpy (dst : Bytes) (src : CString) (len : Nat) : Bytes :=
  memcpy dst 0 (textBytes (src.take (len - 1)) ++ [0])

def xsReadTimeout : Option CString → Option Bytes → Nat → UInt32 → Deadline →
    SrvM (Except Errno Nat × Option Bytes) :=
  xsGetWith (fun entry => (entryValue entry).length)
    fun entry len buf => strlcpy buf (entryValue entry) len

/-- The loop of `xs_directory_timeout` over the children. -/
def copyNames (len : Nat) : List CString → Nat → Bytes → Bytes
  | [], _, buf => buf
  | key :: rest, used, buf =>
    if used ≥ len then buf
    else
      let copyLen := min (xenstoreStrByteSize (some key)) (len - used)
      copyNames len rest (used + copyLen) (memcpy buf used ((strBytes key).take copyLen))

def xsDirectoryTimeout : Option CString → Option Bytes → Nat → UInt32 → Deadline →
    SrvM (Except Errno Nat × Option Bytes) :=
  xsGetWith (fun entry => (entry.children.keys.map fun key => xenstoreStrByteSize (some key)).sum)
    fun entry len buf => copyNames len entry.children.keys 0 buf

/-- The loop of `xs_get_permissions_timeout` over the permissions. -/
def copyPerms (permsNum : Nat) : List XsPermEntry → Nat → List XsPermEntry → List XsPermEntry
  | [], _, perms => perms
  | iter :: rest, used, perms =>
    if used < permsNum then copyPerms permsNum rest (used + 1) (perms.set used iter)
    else copyPerms permsNum rest used perms

def xsGetPermissionsTimeout : Option CString → Option (List XsPermEntry) → Nat → UInt32 →
    Deadline → SrvM (Except Errno Nat × Option (List XsPermEntry)) :=
  xsGetWith (fun entry => entry.label.perms.length)
    fun entry permsNum perms => copyPerms permsNum entry.label.perms 0 perms

def dirStream (entry : XsEntry) : Bytes := entry.children.keys.flatMap strBytes

theorem length_names (keys : List CString) :
    (keys.map fun key => xenstoreStrByteSize (some key)).sum = (keys.flatMap strBytes).length := by
  rw [List.length_flatMap]
  simp [xenstoreStrByteSize]

theorem copyNames_eq {len : Nat} {keys : List CString} {used : Nat} {buf : Bytes}
    (hbuf : buf.length = len) (hused : used ≤ len) :
    copyNames len keys used buf = memcpy buf used ((keys.flatMap strBytes).take (len - used)) := by
  induction keys generalizing used buf with
  | nil => simp [copyNames, memcpy_nil]
  | cons key rest ih =>
    unfold copyNames
    split
    · rw [Nat.sub_eq_zero_of_le (by omega), List.take_zero, memcpy_nil]
    · generalize hn : min (xenstoreStrByteSize (some key)) (len - used) = n
      rw [xenstoreStrByteSize] at hn
      have hcopied : ((strBytes key).take n).length = n := by
        rw [List.length_take, strBytes_length]
        omega
      have hroom : used + ((strBytes key).take n).length ≤ buf.length := by omega
      have hmem := memcpy_length hroom
      have hstep : used + n = used + ((strBytes key).take n).length := by rw [hcopied]
      rw [ih (hmem.trans hbuf) (by omega), hstep, memcpy_memcpy hroom, hcopied, List.flatMap_cons,
        List.take_append]
      congr 2
      · rw [List.take_eq_take_iff, strBytes_length]
        omega
      · rw [strBytes_length]
        congr 1
        omega

theorem copyPerms_eq {permsNum : Nat} {perms : List XsPermEntry} {used : Nat}
    {mem : List XsPermEntry} (hmem : mem.length = permsNum) (hused : used ≤ permsNum) :
    copyPerms permsNum perms used mem = memcpy mem used (perms.take (permsNum - used)) := by
  induction perms generalizing used mem with
  | nil => simp [copyPerms, memcpy_nil]
  | cons p rest ih =>
    unfold copyPerms
    split
    · rename_i hlt
      have hroom : used + [p].length ≤ mem.length := by
        rw [List.length_singleton]
        omega
      have htake :
          (p :: rest).take (permsNum - used) = [p] ++ rest.take (permsNum - (used + 1)) := by
        rw [show permsNum - used = permsNum - (used + 1) + 1 by omega]
        rfl
      rw [set_eq_memcpy p (by omega), ih ((memcpy_length hroom).trans hmem) (by omega), htake,
        ← memcpy_memcpy hroom]
      rfl
    · rename_i hge
      have hfull := ih hmem hused
      rw [Nat.sub_eq_zero_of_le (by omega), List.take_zero] at hfull ⊢
      exact hfull

section Runs
variable {s : Shared} {p path : CString} {e : EntryRef}

theorem wp_keyToEntryCheckPerm_dom0 {Q : Option EntryRef → List Bool → Prop} {E : Fault → Prop}
    {allocs : List Bool} {perms : XsPerm} (hf : foundEntry s.root path = some e)
    (hmem : false ∉ allocs) (h : ∀ rest, rest <:+ allocs → Q (some e) rest) :
    wp (keyToEntryCheckPerm s.root path 0 perms) Q E allocs :=
  wp_keyToEntryCheckPerm_found hf rfl hmem h

theorem xsGetWith_run {α : Type} {total : XsEntry → Nat} {fill : XsEntry → Nat → List α → List α}
    (hg : Granted s) (hpath : resolvePath p 0 = .ok path) (hf : foundEntry s.root path = some e)
    (buf : Option (List α)) (len : Nat) (hbuf : 0 < len → buf.isSome) (tout : Deadline) :
    ∃ s', xsGetWith total fill (some p) buf len 0 tout s =
      .ok ((.ok (total e.entry), if 0 < len then buf.map (fill e.entry len) else buf), s') := by
  have hrun : wp (xsGetWith total fill (some p) buf len 0 tout)
      (fun r _ => r = (.ok (total e.entry), if 0 < len then buf.map (fill e.entry len) else buf))
      (fun _ => False) s := by
    unfold xsGetWith
    have hargs : (0 < len && buf.isNone) = false := by
      cases buf with
      | none =>
        have : len = 0 := by
          by_contra hne
          exact absurd (hbuf (by omega)) (by simp)
        simp [this]
      | some mem => simp
    simp only [hargs, Bool.false_eq_true, if_false, ne_eq, not_true_eq_false, wp_bind, wp_alloc]
    refine wp_constructPath (fun rest hs => ?_) (fun _ _ hfail => absurd hfail hg.allocs)
    rw [hpath]
    have hrest : false ∉ rest := fun h => hg.allocs (hs.subset h)
    simp only [wp_bind]
    refine wp_lock_granted ⟨hrest, hg.locks⟩ fun locks _ => ?_
    simp only [wp_bind, wp_get, wp_alloc]
    exact wp_keyToEntryCheckPerm_dom0 hf hrest fun _ _ => rfl
  obtain ⟨r, s', hrun, rfl⟩ := wp_total hrun
  exact ⟨s', hrun⟩

section Handlers
variable {x : Xenstore} {id : UInt32} {payload : Bytes}
variable (htext : readStr payload = .ok p) (hpath : resolvePath p x.domid = .ok path)
  (hmem : false ∉ s.allocs) (hf : foundEntry s.root path = some e)
  (hp : checkPerms e.entry.label .read x.domid = .ok true)
  (hlim : x.usedOutBufs ≤ xenstoreMaxOutBufNum)
include htext hpath hmem hf hp hlim

theorem handleGetPerms_sends :
    Sends (handleGetPerms x id payload) x id .getPerms (permsWire e.entry.label.perms) s := by
  refine sends_withPath htext hpath hmem fun rest hrest => ?_
  simp only [wp_bind, wp_get, wp_alloc]
  refine wp_keyToEntryCheckPerm_found hf hp hrest fun rest' hs' => ?_
  have hrest' : false ∉ rest' := fun h => hrest (hs'.subset h)
  unfold serializePerms
  simp only [wp_bind, wp_alloc]
  refine wp_kMalloc_granted hrest' fun rest'' hrest'' => ?_
  exact wp_sendReplySz_sends hlim hrest''

theorem handleDirectory_sends :
    Sends (handleDirectory x id payload) x id .directory (dirStream e.entry) s := by
  refine sends_withPath htext hpath hmem fun rest hrest => ?_
  simp only [wp_bind, wp_get, wp_alloc]
  refine wp_keyToEntry (fun rest' hs' => ?_) (fun _ _ hfail => absurd hfail hrest)
  have hrest' : false ∉ rest' := fun h => hrest (hs'.subset h)
  rw [hf]
  simp only [checkPermsForEntry, hp, wp_bind, wp_lift_ok, Bool.not_true, Bool.false_eq_true,
    if_false, wp_alloc]
  refine wp_kMalloc_granted hrest' fun rest'' hrest'' => ?_
  exact wp_sendReplySz_sends hlim hrest''

end Handlers

theorem permsWire_injective {ps qs : List XsPermEntry} (h : permsWire ps = permsWire qs) :
    ps = qs := by
  have hwire (ps : List XsPermEntry) : permsWire ps = (ps.map permText).flatMap strBytes := by
    rw [List.flatMap_map]
    rfl
  rw [hwire, hwire] at h
  refine List.map_injective_iff.mpr (fun p q hpq => ?_) (entries_unique h)
  obtain ⟨hperm, hdomid⟩ := List.cons.inj hpq
  have hp : p.perm = q.perm := by
    have hback := permFromWire_toWire p.perm
    rw [hperm, permFromWire_toWire] at hback
    exact (Except.ok.inj hback).symm
  have hd : p.domid = q.domid := UInt16.toNat.inj (decimal_injective hdomid)
  cases p
  cases q
  simp_all

/-- The call returns `total` and leaves the memory as it was, with `copied` at its start. -/
def FillsBuffer {α : Type} (call : Option (List α) → Nat → Deadline →
    SrvM (Except Errno Nat × Option (List α))) (total : Nat) (copied : Nat → List α)
    (s : Shared) : Prop :=
  ∀ tout, (∃ s', call none 0 tout s = .ok ((.ok total, none), s')) ∧
    ∀ buf : List α, ∃ s', call (some buf) buf.length tout s =
      .ok ((.ok total, some (memcpy buf 0 (copied buf.length))), s')

theorem xsGetWith_fills {α : Type} {total : XsEntry → Nat}
    {fill : XsEntry → Nat → List α → List α} {copied : Nat → List α} (hg : Granted s)
    (hpath : resolvePath p 0 = .ok path) (hf : foundEntry s.root path = some e)
    (hzero : copied 0 = [])
    (hfill : ∀ buf : List α, 0 < buf.length →
      fill e.entry buf.length buf = memcpy buf 0 (copied buf.length)) :
    FillsBuffer (fun buf len tout => xsGetWith total fill (some p) buf len 0 tout)
      (total e.entry) copied s := by
  refine fun tout => ⟨?_, fun buf => ?_⟩
  · exact xsGetWith_run hg hpath hf none 0 (fun h => absurd h (lt_irrefl 0)) tout
  · obtain ⟨s', hrun⟩ := @xsGetWith_run s p path e α total fill hg hpath hf (some buf) buf.length
      (fun _ => rfl) tout
    refine ⟨s', hrun.trans ?_⟩
    by_cases hpos : 0 < buf.length
    · rw [if_pos hpos, Option.map_some, hfill buf hpos]
    · have hnil : buf = [] := List.length_eq_zero_iff.mp (by omega)
      subst hnil
      rw [if_neg hpos, List.length_nil, hzero, memcpy_nil]

/-- The calls of Dom0 and the handlers give the same content of a node. Whatever the length of its
memory a call returns the full length or count and copies what fits, `xs_read_timeout` with a NUL
behind it. To a guest that may read the node the handlers send the same stream of names, the same
permissions and the same value, where these fit in one message. -/
theorem getters_agree_with_handlers (hg : Granted s) (hpath : resolvePath p 0 = .ok path)
    (hf : foundEntry s.root path = some e) :
    FillsBuffer (fun buf len tout => xsDirectoryTimeout (some p) buf len 0 tout)
      (dirStream e.entry).length (fun n => (dirStream e.entry).take n) s ∧
    FillsBuffer (fun perms permsNum tout => xsGetPermissionsTimeout (some p) perms permsNum 0 tout)
      e.entry.label.perms.length (fun n => e.entry.label.perms.take n) s ∧
    FillsBuffer (fun buf len tout => xsReadTimeout (some p) buf len 0 tout)
      (entryValue e.entry).length
      (fun n => if n = 0 then [] else textBytes ((entryValue e.entry).take (n - 1)) ++ [0]) s ∧
    (∀ (x : Xenstore) (id : UInt32) (payload : Bytes) (text : CString),
      readStr payload = .ok text → resolvePath text x.domid = .ok path →
      checkPerms e.entry.label .read x.domid = .ok true →
      x.usedOutBufs ≤ xenstoreMaxOutBufNum →
      Sends (handleDirectory x id payload) x id .directory (dirStream e.entry) s ∧
      Sends (handleGetPerms x id payload) x id .getPerms (permsWire e.entry.label.perms) s ∧
      Sends (handleRead x id payload) x id .read (textBytes (entryValue e.entry)) s) ∧
    (∀ perms, permsWire perms = permsWire e.entry.label.perms → perms = e.entry.label.perms) ∧
    ((∀ perm ∈ e.entry.label.perms, perm.domid.toNat ≤ 0x7FFF) →
      xenstorePermParseWire (permsWire e.entry.label.perms) none = .ok e.entry.label.perms) := by
  refine ⟨?_, ?_, ?_, fun x id payload text htext htext' hp hlim => ⟨?_, ?_, ?_⟩,
    fun perms => permsWire_injective, permParseWire_permsWire⟩
  · rw [dirStream, ← length_names]
    exact xsGetWith_fills hg hpath hf rfl fun buf _ => copyNames_eq rfl (Nat.zero_le _)
  · exact xsGetWith_fills hg hpath hf rfl fun buf _ => copyPerms_eq rfl (Nat.zero_le _)
  · refine xsGetWith_fills hg hpath hf rfl fun buf hpos => ?_
    rw [if_neg (by omega)]
    rfl
  · exact handleDirectory_sends htext htext' hg.allocs hf hp hlim
  · exact handleGetPerms_sends htext htext' hg.allocs hf hp hlim
  · exact handleRead_sends htext htext' hg.allocs hf hp hlim

end Runs

/-- "/d" of Dom0, which domain 7 may read: a value, and three nodes below it. -/
def threeBelow : XsEntry :=
  ⟨⟨some (ascii ['v', 'a', 'l']), [⟨0, .none⟩, ⟨7, .read⟩]⟩,
    .cons (ascii ['a']) ⟨none, [⟨0, .none⟩]⟩ .nil
      (.cons (ascii ['b', 'b']) ⟨none, [⟨0, .none⟩]⟩ .nil
        (.cons (ascii ['c']) ⟨none, [⟨0, .none⟩]⟩ .nil .nil))⟩

def threeBelowStore : Shared :=
  { Shared.boot 4 with
    root := ⟨⟨none, [⟨0, .none⟩]⟩,
      .cons (ascii ['d']) threeBelow.label threeBelow.children .nil⟩ }

/-- Dom0 has three bytes for each getter, and domain 7 sends the three requests. -/
theorem getters_agree_threeBelow :
    (∃ s', xsDirectoryTimeout (some (ascii ['/', 'd'])) (some [1, 1, 1]) 3 0 .timed
      threeBelowStore = .ok ((.ok 7, some [97, 0, 98]), s')) ∧
    (∃ s', xsGetPermissionsTimeout (some (ascii ['/', 'd'])) none 0 0 .timed threeBelowStore =
      .ok ((.ok 2, none), s')) ∧
    (∃ s', xsReadTimeout (some (ascii ['/', 'd'])) (some [1, 1, 1]) 3 0 .timed threeBelowStore =
      .ok ((.ok 3, some [118, 97, 0]), s')) ∧
    Sends (handleDirectory (idleClient 7) 1 [47, 100, 0]) (idleClient 7) 1 .directory
      [97, 0, 98, 98, 0, 99, 0] threeBelowStore ∧
    Sends (handleGetPerms (idleClient 7) 1 [47, 100, 0]) (idleClient 7) 1 .getPerms
      [110, 48, 0, 114, 55, 0] threeBelowStore ∧
    Sends (handleRead (idleClient 7) 1 [47, 100, 0]) (idleClient 7) 1 .read [118, 97, 108]
      threeBelowStore ∧
    (∀ perms, permsWire perms = [110, 48, 0, 114, 55, 0] → perms = threeBelow.label.perms) ∧
    xenstorePermParseWire [110, 48, 0, 114, 55, 0] none = .ok threeBelow.label.perms := by
  have hwire : permsWire threeBelow.label.perms = [110, 48, 0, 114, 55, 0] := by decide +kernel
  have hdir : dirStream threeBelow = [97, 0, 98, 98, 0, 99, 0] := by decide
  have hvalue : textBytes (entryValue threeBelow) = [118, 97, 108] := by decide
  obtain ⟨hnames, hperms, hread, hsends, hone, hparse⟩ :=
    @getters_agree_with_handlers threeBelowStore (ascii ['/', 'd']) (ascii ['/', 'd'])
      ⟨[ascii ['d']], threeBelow⟩ ⟨List.not_mem_nil, List.not_mem_nil⟩ (by decide) (by decide)
  obtain ⟨hsdir, hsperms, hsread⟩ := hsends (idleClient 7) 1 [47, 100, 0] (ascii ['/', 'd'])
    (by decide) (by decide) (by decide) (by decide)
  rw [hdir] at hsdir
  rw [hwire] at hsperms hone hparse
  rw [hvalue] at hsread
  exact ⟨(hnames .timed).2 [1, 1, 1], (hperms .timed).1, (hread .timed).2 [1, 1, 1], hsdir,
    hsperms, hsread, hone, hparse (by decide)⟩

end Xenlib
