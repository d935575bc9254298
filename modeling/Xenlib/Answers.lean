import Xenlib.Registry
import Xenlib.HandlerFrames

/-!
Every handler answers. Below the output limit, with memory and a shared state in order, a
request is answered by one message with its id and its type or XS_ERROR. Four handlers need
more: the node of XS_SET_PERMS has to exist, the tokens of XS_WATCH and XS_UNWATCH have to be
terminated, and XS_RM must not take the root away. XS_TRANSACTION_END leaves its answer to the
loop of the thread.
-/

set_option autoImplicit false

namespace Xenlib

open Wp

/-- The client after one reply. Besides it only the transaction counters may have changed. -/
def Answered (x : Xenstore) (id : UInt32) (type : XsdSockmsgType) (x' : Xenstore) : Prop :=
  ∃ (m : Message) (transaction running : UInt32),
    (m.reqId = id ∧ (m.type = type ∨ m.type = .error)) ∧
    x' = Xenstore.push { x with transaction := transaction, runningTransaction := running } m

theorem Answered.push {x : Xenstore} {id : UInt32} {type : XsdSockmsgType} {m : Message}
    (hid : m.reqId = id) (htype : m.type = type ∨ m.type = .error) :
    Answered x id type (x.push m) :=
  ⟨m, x.transaction, x.runningTransaction, ⟨hid, htype⟩, rfl⟩

theorem Answered.domid {x x' : Xenstore} {id : UInt32} {type : XsdSockmsgType}
    (h : Answered x id type x') : x'.domid = x.domid := by
  obtain ⟨_, _, _, _, rfl⟩ := h
  rfl

section Answers
variable {x : Xenstore} {slot : Nat} {s : Shared} {id : UInt32} {payload : Bytes}

theorem wp_sendErrno_answered {Q : Xenstore → Shared → Prop} {E : Fault → Prop}
    (hlim : BelowLimit x) (hs : ServerInv x.domid slot s) {type : XsdSockmsgType} {err : Errno}
    (h : ∀ x', Answered x id type x' → Q x' s) : wp (sendErrno x id err) Q E s := by
  refine wp_sendErrno hlim (fun txId rest hrest => ?_) (fun rest hrest hmem => ?_)
  · rw [allocs_same hs.store.allocs hrest]
    exact h _ (.push rfl (Or.inr rfl))
  · rw [hs.store.allocs] at hmem
    cases hmem

theorem wp_sendReplySz_answered {Q : Xenstore → Shared → Prop} {E : Fault → Prop}
    (hlim : BelowLimit x) (hs : ServerInv x.domid slot s) {type : XsdSockmsgType} {data : Bytes}
    (h : ∀ x', Answered x id type x' → Q x' s) : wp (sendReplySz x id type data) Q E s := by
  refine wp_sendReplySz hlim (fun m rest hrest hm => ?_) (fun rest hrest hmem => ?_)
  · rw [allocs_same hs.store.allocs hrest]
    refine h _ (.push hm.reqId ?_)
    rcases Nat.lt_or_ge xenstorePayloadMax data.length with hbig | hfits
    · exact Or.inr (hm.tooBig hbig).1
    · exact Or.inl (hm.fits hfits).1
  · rw [hs.store.allocs] at hmem
    cases hmem

theorem runs_sendErrno (hlim : BelowLimit x) (type : XsdSockmsgType) (err : Errno) :
    Runs x.domid slot (sendErrno x id err) (Answered x id type) :=
  fun _ hs => wp_sendErrno_answered hlim hs fun _ hx' => ⟨hx', hs⟩

theorem runs_sendReplySz (hlim : BelowLimit x) (type : XsdSockmsgType) (data : Bytes) :
    Runs x.domid slot (sendReplySz x id type data) (Answered x id type) :=
  fun _ hs => wp_sendReplySz_answered hlim hs fun _ hx' => ⟨hx', hs⟩

theorem runs_readStr (hz : 0 ∈ payload) :
    Runs x.domid slot (Wp.lift (readStr payload)) fun text => readStr payload = .ok text := by
  obtain ⟨text, htext⟩ := readStr_of_mem hz
  refine Holds.lift (fun _ ha => ha) (fun e he => ?_)
  rw [htext] at he
  cases he

theorem runs_withPath (hlim : BelowLimit x) (hz : 0 ∈ payload) {type : XsdSockmsgType}
    {body : CString → SrvM Xenstore}
    (h : ∀ path, Runs x.domid slot (body path) (Answered x id type)) :
    Runs x.domid slot (withPath x id payload body) (Answered x id type) := by
  unfold withPath
  refine (runs_readStr hz).bind fun text _ =>
    (runs_alloc (constructPath_nil text x.domid)).bind fun r _ => ?_
  cases r with
  | error e => exact runs_sendErrno hlim type e
  | ok path => exact h path

theorem runs_keyToEntryCheckPerm {root : XsEntry} (hp : PermsOk root) (key : CString)
    (caller : UInt32) (perms : XsPerm) :
    Runs x.domid slot (alloc (keyToEntryCheckPerm root key caller perms)) fun _ => True :=
  (runs_alloc (keyToEntryCheckPerm_nil hp)).mono fun _ _ => trivial

theorem runs_handleDirectory (hlim : BelowLimit x) (hz : 0 ∈ payload) :
    Runs x.domid slot (handleDirectory x id payload) (Answered x id .directory) := by
  refine runs_withPath hlim hz fun path => Holds.get.bind fun s hs =>
    (runs_alloc (keyToEntry_nil s.root path)).bind fun r hr => ?_
  cases r with
  | none => exact runs_sendErrno hlim _ _
  | some entry =>
    refine Holds.bind (Holds.lift (fun _ _ => trivial) (fun e he => ?_)) fun b _ => ?_
    · rw [hr] at he
      exact checkPermsForEntry_error he hs.store.wellFormed.permsOk
    · refine Holds.ite (fun _ => runs_sendErrno hlim _ _) fun _ => ?_
      refine (runs_alloc kMalloc_nil).bind fun b _ => ?_
      exact Holds.ite (fun _ => runs_sendErrno hlim _ _) fun _ => runs_sendReplySz hlim _ _

theorem runs_handleGetPerms (hlim : BelowLimit x) (hz : 0 ∈ payload) :
    Runs x.domid slot (handleGetPerms x id payload) (Answered x id .getPerms) := by
  refine runs_withPath hlim hz fun path => Holds.get.bind fun s hs =>
    (runs_keyToEntryCheckPerm hs.store.wellFormed.permsOk _ _ _).bind fun r _ => ?_
  cases r with
  | none => exact runs_sendErrno hlim _ _
  | some entry =>
    refine Holds.bind (runs_alloc (x := serializePerms entry.entry.label) rfl) fun r _ => ?_
    cases r with
    | none => exact runs_sendErrno hlim _ _
    | some permStr => exact runs_sendReplySz hlim _ _

theorem runs_handleRead (hlim : BelowLimit x) (hz : 0 ∈ payload) :
    Runs x.domid slot (handleRead x id payload) (Answered x id .read) := by
  refine runs_withPath hlim hz fun path => Holds.get.bind fun s hs =>
    (runs_keyToEntryCheckPerm hs.store.wellFormed.permsOk _ _ _).bind fun r _ => ?_
  cases r with
  | none => exact runs_sendErrno hlim _ _
  | some entry => exact runs_sendReplySz hlim _ _

theorem runs_constructData (pathLen : Nat) :
    Runs x.domid slot (alloc (constructData payload pathLen)) fun _ => True := by
  intro s hs
  rw [wp_alloc]
  refine wp_constructData (fun _ rest hrest => ⟨trivial, ?_⟩) (fun rest hrest _ => ⟨trivial, ?_⟩)
  · rw [allocs_same hs.store.allocs hrest]
    exact hs
  · rw [allocs_same hs.store.allocs hrest]
    exact hs

theorem runs_handleWriteAs (hlim : BelowLimit x) (hz : 0 ∈ payload) (type : XsdSockmsgType) :
    Runs x.domid slot (handleWriteAs type x id payload) (Answered x id type) := by
  unfold handleWriteAs
  refine (runs_readStr hz).bind fun text _ =>
    Holds.ite (fun _ => runs_sendErrno hlim _ _) fun _ => ?_
  refine (runs_alloc (constructPath_nil text x.domid)).bind fun r _ => ?_
  cases r with
  | error e => exact runs_sendErrno hlim _ e
  | ok path =>
    refine (runs_constructData _).bind fun r _ => ?_
    cases r with
    | error e => exact runs_sendErrno hlim _ e
    | ok data =>
      refine (runs_xssDoWriteDeadline _ _ _ _ _).bind fun rc _ => ?_
      cases rc with
      | some e => exact runs_sendErrno hlim _ e
      | none =>
        exact (runs_sendReplySz hlim type _).bind fun x' hx' =>
          (runs_notifyWatchers path).bind fun _ _ => Holds.pure hx'

/-- The request is answered, and the shared state stays in order. -/
abbrev Answers (x : Xenstore) (slot : Nat) (id : UInt32) (type : XsdSockmsgType)
    (prog : SrvM Xenstore) (s : Shared) : Prop :=
  wp prog (fun x' s' => Answered x id type x' ∧ ServerInv x.domid slot s') (fun _ => False) s

theorem answers_handleRm (hlim : BelowLimit x) (hs : ServerInv x.domid slot s) (hz : 0 ∈ payload)
    (hroot : readStr payload = .ok [slash] → ¬ Grants s.root.label x.domid) :
    Answers x slot id .rm (handleRm x id payload) s := by
  obtain ⟨key, hkey⟩ := readStr_of_mem hz
  show wp (Wp.lift (readStr payload) >>= _) _ _ s
  rw [wp_bind, hkey]
  refine wp_lift (fun a ha => ?_) (fun e he => by cases he)
  cases ha
  rw [wp_bind]
  refine wp_conseq (wp_xssDoRmDeadline hs fun hk => hroot (hk ▸ hkey)) fun rc s₁ hs₁ => ?_
  cases rc with
  | some e => exact runs_sendErrno hlim _ e s₁ hs₁
  | none => exact runs_sendReplySz hlim _ _ s₁ hs₁

theorem answers_withPath (hlim : BelowLimit x) (hs : ServerInv x.domid slot s)
    {type : XsdSockmsgType} {body : CString → SrvM Xenstore} {text : CString}
    (htext : readStr payload = .ok text)
    (h : ∀ path, resolvePath text x.domid = .ok path → Answers x slot id type (body path) s) :
    Answers x slot id type (withPath x id payload body) s :=
  wp_withPath_nil hs.store.allocs htext (fun e _ => runs_sendErrno hlim type e s hs) h

theorem answers_setPermsOf (hlim : BelowLimit x) (hs : ServerInv x.domid slot s)
    (permString : Bytes) {path : CString} (hnode : (foundEntry s.root path).isSome) :
    Answers x slot id .setPerms (setPermsOf x id permString path) s := by
  unfold setPermsOf
  simp only [wp_bind, wp_get, wp_alloc]
  refine wp_keyToEntryCheckPerm (fun entry rest hrest hf _ => ?_) (fun rest hrest hno => ?_)
    (fun hp => hp hs.store.wellFormed.permsOk)
  · have hperms := found_perms hs.store hf
    have hstored : ∀ {rest' : List Bool} {node : XsNode}, rest' <:+ rest → node.perms ≠ [] →
        ServerInv x.domid slot
          { s with allocs := rest', root := s.root.modify (fun _ => node) entry.path } :=
      fun hrest' hn =>
        hs.withStore ((hs.store.drawn (hrest'.trans hrest)).modify _ hn) rfl rfl rfl rfl
    simp only [wp_bind, wp_alloc, wp_modify]
    refine wp_setPermsByStrings (fun ps rest' hrest' _ hne => ?_) (fun e rest' hrest' _ => ?_)
    · exact runs_sendReplySz hlim _ _ _ (hstored hrest' hne)
    · exact runs_sendErrno hlim _ e _ (hstored hrest' hperms)
  · obtain ⟨entry, hf⟩ := Option.isSome_iff_exists.mp hnode
    rcases hno with hmem | hno
    · rw [hs.store.allocs] at hmem
      cases hmem
    · have hc := hno entry hf
      rw [checkPerms_none (found_perms hs.store hf)] at hc
      cases hc

theorem answers_handleSetPerms (hlim : BelowLimit x) (hs : ServerInv x.domid slot s)
    {text : CString} (htext : readStr payload = .ok text)
    (hnode : strnlen payload + 1 < payload.length → ∀ path, resolvePath text x.domid = .ok path →
      (foundEntry s.root path).isSome) :
    Answers x slot id .setPerms (handleSetPerms x id payload) s := by
  refine wp_ite (fun _ => runs_sendErrno hlim _ _ s hs) (fun hlong => ?_)
  refine answers_withPath hlim hs htext fun path hp => answers_setPermsOf hlim hs _ ?_
  exact hnode (by omega) path hp

theorem ServerInv.malloc {domid : UInt32} (hs : ServerInv domid slot s) {α : Type}
    {f : Bool → SrvM α} {Q : α → Shared → Prop} {E : Fault → Prop} (h : wp (f true) Q E s) :
    wp (alloc kMalloc >>= f) Q E s := by
  rw [wp_bind]
  exact wp_of_ok (alloc_nil hs.store.allocs kMalloc_nil) h

/-- Looking for a watch reads its token and the one it is compared with only where both the
domain and the key fit. -/
theorem keyToWatcher_own {key : CString} {token : Bytes} {domid : UInt32} {ws : List WatchEntry}
    (htoken : ∀ w ∈ ws, w.domain = some domid → w.key = key → ∃ t, readStr token = .ok t)
    (hws : ∀ w ∈ ws, w.domain = some domid → ∃ t, readStr w.token = .ok t) :
    ∃ r, keyToWatcher key token (some domid) ws = .ok r ∧
      ∀ w, r = some w → w ∈ ws ∧ w.domain = some domid ∧ w.key = key := by
  induction ws with
  | nil => exact ⟨none, rfl, fun _ h => by cases h⟩
  | cons iter rest ih =>
    obtain ⟨r, hr, hfound⟩ := ih (fun w hw => htoken w (List.mem_cons_of_mem _ hw))
      (fun w hw => hws w (List.mem_cons_of_mem _ hw))
    have hrest : ∀ w, r = some w → w ∈ iter :: rest ∧ w.domain = some domid ∧ w.key = key :=
      fun w hw => ⟨List.mem_cons_of_mem _ (hfound w hw).1, (hfound w hw).2⟩
    unfold keyToWatcher
    by_cases hfit : iter.domain = some domid ∧ iter.key = key
    · obtain ⟨t, ht⟩ := htoken iter List.mem_cons_self hfit.1 hfit.2
      obtain ⟨u, hu⟩ := hws iter List.mem_cons_self hfit.1
      have hm : ∃ b, tokenMatches token iter.token = .ok b := by
        unfold tokenMatches
        rw [ht, hu]
        cases t with
        | nil => exact ⟨_, rfl⟩
        | cons c t => exact ⟨_, rfl⟩
      obtain ⟨b, hb⟩ := hm
      rw [if_pos (by simp [hfit]), hb]
      cases b with
      | true => exact ⟨some iter, rfl, fun w hw => by cases hw; exact ⟨List.mem_cons_self, hfit⟩⟩
      | false => exact ⟨r, hr, hrest⟩
    · rw [if_neg (by simpa using hfit)]
      exact ⟨r, hr, hrest⟩

theorem ServerInv.own_tokens (hs : ServerInv x.domid slot s) :
    ∀ w ∈ linkedWatches s, w.domain = some x.domid → ∃ t, readStr w.token = .ok t :=
  fun w hw => (hs.registry.entries w (List.mem_of_mem_filter hw)).token

theorem resolvePath_relative {text path : CString} {domid : UInt32}
    (h : resolvePath text domid = .ok path) (hrel : xenstoreIsAbsPath text = false)
    (hdomid : (localDomainPath domid).length < xenstoreMaxLocalpathLen) :
    (localDomainPath domid).length ≤ path.length := by
  obtain ⟨_, ht⟩ := resolvePath_ok h
  unfold pathText at ht
  rw [hrel, if_neg Bool.false_ne_true] at ht
  split at ht
  · cases ht
  · cases ht
    rw [List.length_take, List.length_append]
    omega

theorem wp_findOrAddWatch {path : CString} {token : Bytes} {isRelative : Bool}
    (hs : ServerInv x.domid slot s) (htoken : ∃ t, readStr token = .ok t)
    (hrel : isRelative = true → (localDomainPath x.domid).length ≤ path.length) :
    wp (findOrAddWatch x path token isRelative)
      (fun r s' => ServerInv x.domid slot s' ∧ ∃ wentry w, r = some wentry ∧ w ∈ s'.watches ∧
        wentry.id = w.id ∧ w.domain = some x.domid ∧ w.key = path) (fun _ => False) s := by
  obtain ⟨r, hr, hfound⟩ := @keyToWatcher_own path token x.domid (linkedWatches s)
    (fun _ _ _ _ => htoken) hs.own_tokens
  unfold findOrAddWatch
  simp only [wp_bind, wp_get, hr]
  refine wp_lift (fun a ha => ?_) (fun e he => by cases he)
  cases ha
  cases r with
  | some wentry =>
    obtain ⟨hmem, hd, hkey⟩ := hfound wentry rfl
    have hmem := List.mem_of_mem_filter hmem
    have hok : ∀ w ∈ s.watches, WatchOk x.domid
        (if w.id = wentry.id then { w with isRelative := isRelative } else w) := by
      intro w hw
      have hold := hs.registry.entries w hw
      by_cases hid : w.id = wentry.id
      · have hwe := hs.registry.unique hw hmem hid
        subst hwe
        rw [if_pos rfl]
        refine ⟨hold.idle, hold.token, fun h => ?_⟩
        show (localDomainPath (w.domain.getD 0)).length ≤ w.key.length
        rw [hd, hkey]
        exact hrel h
      · rw [if_neg hid]
        exact hold
    refine ⟨⟨⟨hs.store.wellFormed, hs.store.allocs⟩, ?_, hs.slotHeld⟩,
      wentry, { wentry with isRelative := isRelative }, rfl, ?_, rfl, hd, hkey⟩
    · exact hs.registry.map (fun w => by split <;> rfl) (fun w => by split <;> rfl)
        (fun w => by split <;> rfl) hok
    · exact List.mem_map.mpr ⟨wentry, hmem, if_pos rfl⟩
  | none =>
    have hnew : WatchOk x.domid (newWatch s path token x.domid isRelative) :=
      ⟨rfl, fun _ => htoken, hrel⟩
    refine hs.malloc (hs.malloc (hs.malloc ?_))
    refine ⟨⟨⟨hs.store.wellFormed, hs.store.allocs⟩, ?_, hs.slotHeld⟩,
      _, _, rfl, List.mem_append.mpr (Or.inr (List.mem_singleton.mpr rfl)), rfl, rfl, rfl⟩
    exact hs.registry.add rfl hnew

theorem isAbsPath_of_head {text : CString} (htext : readStr payload = .ok text)
    (h : payload.head? ≠ some slash.val) : xenstoreIsAbsPath text = false := by
  obtain ⟨tail, rfl⟩ := readStr_ok htext
  unfold xenstoreIsAbsPath
  rw [decide_eq_false_iff_not]
  intro hc
  cases text with
  | nil => cases hc
  | cons c cs =>
    rw [List.head?_cons, Option.some.injEq] at hc
    rw [hc] at h
    exact h rfl

theorem answers_handleWatch (hlim : BelowLimit x) (hs : ServerInv x.domid slot s)
    (hdomid : (localDomainPath x.domid).length < xenstoreMaxLocalpathLen)
    {text : CString} (htext : readStr payload = .ok text)
    (htoken : ∀ path, resolvePath text x.domid = .ok path →
      ∃ t, readStr (payload.drop (strnlen payload + 1)) = .ok t) :
    Answers x slot id .watch (handleWatch x id payload) s := by
  refine wp_ite (fun _ => runs_sendErrno hlim _ _ s hs) (fun _ => ?_)
  refine answers_withPath hlim hs htext fun path hp => ?_
  have hrel : decide (payload.head? ≠ some slash.val) = true →
      (localDomainPath x.domid).length ≤ path.length := fun h =>
    resolvePath_relative hp (isAbsPath_of_head htext (of_decide_eq_true h)) hdomid
  unfold Answers
  rw [wp_bind]
  refine wp_conseq (wp_findOrAddWatch hs (htoken path hp) hrel) ?_
  rintro r s₁ ⟨hs₁, wentry, w, rfl, hmem, hid, hd, rfl⟩
  -- the reply comes first, then the event that tells the watch about its own node
  simp only [wp_bind]
  refine wp_sendReplySz_answered hlim hs₁ fun x' hx' => ?_
  have hdom : x'.domid = x.domid := hx'.domid
  simp only [wp_get, hdom]
  refine wp_of_ok (alloc_nil hs₁.store.allocs
    (keyToEntryCheckPerm_nil hs₁.store.wellFormed.permsOk)) ?_
  generalize (foundEntry s₁.root w.key).filter _ = found
  cases found with
  | none => exact ⟨hx', hs₁⟩
  | some _ =>
    simp only [wp_bind, wp_pure]
    exact wp_conseq (wp_queueOwnEvent hs₁ hmem hid hd) fun _ _ hs₂ => ⟨hx', hs₂⟩

theorem ServerInv.unlink (hs : ServerInv x.domid slot s) (gone : WatchEntry → Bool) :
    RegistryOk x.domid (s.watches.map fun w => if gone w then { w with linked := false } else w)
      s.pendingWatchEventList := by
  refine hs.registry.map (fun w => by split <;> rfl) (fun w => by split <;> rfl)
    (fun w => by split <;> rfl) fun w hw => ?_
  have hold := hs.registry.entries w hw
  split
  · exact ⟨hold.idle, hold.token, hold.relative⟩
  · exact hold

theorem answers_handleUnwatch (hlim : BelowLimit x) (hs : ServerInv x.domid slot s)
    {text : CString} (htext : readStr payload = .ok text)
    (htoken : ∀ path, resolvePath text x.domid = .ok path → ∀ w ∈ linkedWatches s,
      w.domain = some x.domid → w.key = path →
      ∃ t, readStr (payload.drop (strnlen payload + 1)) = .ok t) :
    Answers x slot id .unwatch (handleUnwatch x id payload) s := by
  refine answers_withPath hlim hs htext fun path hp => ?_
  obtain ⟨r, hr, _⟩ := keyToWatcher_own (htoken path hp) hs.own_tokens
  simp only [Answers, wp_bind, wp_get, hr]
  refine wp_lift (fun a ha => ?_) (fun e he => by cases he)
  cases ha
  cases r with
  | none => exact runs_sendReplySz hlim _ _ s hs
  | some entry =>
    simp only [wp_bind, wp_modify]
    refine runs_sendReplySz hlim _ _ _ ⟨⟨hs.store.wellFormed, hs.store.allocs⟩,
      ?_, hs.slotHeld⟩
    simpa using hs.unlink fun w => w.id = entry.id

theorem runs_cleanupDomainWatches (domid : UInt32) :
    Runs x.domid slot (cleanupDomainWatches domid) fun _ => True := by
  refine fun s hs => ⟨trivial, ⟨hs.store.wellFormed, hs.store.allocs⟩, ?_,
    hs.slotHeld⟩
  have hreg := hs.unlink fun w => w.domain = some domid
  simp only [decide_eq_true_eq] at hreg
  exact ⟨hreg.ids, hreg.entries, fun e he => hreg.pending e (List.mem_of_mem_filter he)⟩

theorem runs_handleResetWatches (hlim : BelowLimit x) :
    Runs x.domid slot (handleResetWatches x id payload) (Answered x id .resetWatches) :=
  (runs_cleanupDomainWatches x.domid).bind fun _ _ => runs_sendReplySz hlim _ _

theorem runs_handleTransactionStart (hlim : BelowLimit x) :
    Runs x.domid slot (handleTransactionStart x id payload) (Answered x id .transactionStart) := by
  refine Holds.ite (fun _ => runs_sendErrno hlim _ _) fun _ => ?_
  refine Holds.mono (runs_sendReplySz (x := { x with
    transaction := x.transaction + 1, runningTransaction := x.transaction + 1 }) hlim _ _) ?_
  rintro x' ⟨m, transaction, running, hm, rfl⟩
  exact ⟨m, transaction, running, hm, rfl⟩

def resolvedPath (domid : UInt32) (payload : Bytes) : Option CString :=
  match readStr payload with
  | .error _ => none
  | .ok text => (resolvePath text domid).toOption

/-- The request does not run into one of the places where a handler reads what is not there, or
takes the root of the store away. -/
structure Harmless (s : Shared) (domid : UInt32) (r : Request) : Prop where
  /-- XS_SET_PERMS names a node that exists. -/
  node : r.type = XsdSockmsgType.setPerms.code → strnlen r.payload + 1 < r.payload.length →
    ∀ path ∈ resolvedPath domid r.payload, (foundEntry s.root path).isSome
  /-- XS_RM of "/" comes from a domain that may not remove it. -/
  root : r.type = XsdSockmsgType.rm.code → readStr r.payload = .ok [slash] →
    ¬ Grants s.root.label domid
  /-- The token of XS_WATCH is terminated. -/
  watchToken : r.type = XsdSockmsgType.watch.code → (resolvedPath domid r.payload).isSome →
    0 ∈ r.payload.drop (strnlen r.payload + 1)
  /-- So is the token of XS_UNWATCH where the domain watches the path. -/
  unwatchToken : r.type = XsdSockmsgType.unwatch.code → ∀ path ∈ resolvedPath domid r.payload,
    ∀ w ∈ linkedWatches s, w.domain = some domid → w.key = path →
    0 ∈ r.payload.drop (strnlen r.payload + 1)

theorem resolvedPath_eq {domid : UInt32} {text path : CString} (htext : readStr payload = .ok text)
    (hp : resolvePath text domid = .ok path) : resolvedPath domid payload = some path := by
  simp only [resolvedPath, htext, hp]
  rfl

/-- Every request with a handler is answered, but for the one the thread answers later. -/
theorem answers_messageHandle {r : Request} {h : Handler} (hh : messageHandle r.type = some h)
    (hlim : BelowLimit x) (hs : ServerInv x.domid slot s)
    (hdomid : (localDomainPath x.domid).length < xenstoreMaxLocalpathLen) (hz : 0 ∈ r.payload)
    (hok : Harmless s x.domid r) (hnow : r.type ≠ XsdSockmsgType.transactionEnd.code) :
    ∃ t : XsdSockmsgType, t.code = r.type ∧
      Answers x slot r.reqId t (h x r.reqId r.payload) s := by
  obtain ⟨text, htext⟩ := readStr_of_mem hz
  unfold messageHandle at hh
  obtain ⟨t, hfind, ht⟩ := Option.bind_eq_some_iff.mp hh
  have hcode : t.code = r.type := by simpa using List.find?_some hfind
  refine ⟨t, hcode, ?_⟩
  cases t <;> simp only [messageHandleList, Option.some.injEq, reduceCtorEq] at ht <;> subst ht
  · exact runs_sendReplySz hlim _ _ s hs
  · exact runs_handleDirectory hlim hz s hs
  · exact runs_handleRead hlim hz s hs
  · exact runs_handleGetPerms hlim hz s hs
  · refine answers_handleWatch hlim hs hdomid htext fun path hp => readStr_of_mem ?_
    exact hok.watchToken hcode.symm (by rw [resolvedPath_eq htext hp]; rfl)
  · refine answers_handleUnwatch hlim hs htext fun path hp w hw hd hk => readStr_of_mem ?_
    exact hok.unwatchToken hcode.symm path (resolvedPath_eq htext hp) w hw hd hk
  · exact runs_handleTransactionStart hlim s hs
  · exact absurd hcode.symm hnow
  · exact runs_sendReplySz hlim _ _ s hs
  · exact runs_handleWriteAs hlim hz .write s hs
  · exact runs_handleWriteAs hlim hz .mkdir s hs
  · exact answers_handleRm hlim hs hz (hok.root hcode.symm)
  · exact answers_handleSetPerms hlim hs htext fun hlong path hp =>
      hok.node hcode.symm hlong path (resolvedPath_eq htext hp)
  · exact runs_handleResetWatches hlim s hs

end Answers

end Xenlib
