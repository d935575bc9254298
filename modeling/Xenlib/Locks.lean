import Xenlib.Lib.LockOrder

/-!
What the functions of the server do with its four mutexes. All of them are recursive, and they
are taken in the order in which `Mutex.rank` has them. Local watch callbacks run under
`local_watch_dispatch_mutex` and may call back into the server. `xss_list_traverse`, whose
callback runs under `xsel_mutex`, is left out, and so is the release of a client.
-/

set_option autoImplicit false

namespace Xenlib

open LockOrder

inductive Mutex where
  | localWatchDispatch | xsel | wel | pfl
  deriving DecidableEq, Repr

def Mutex.rank : Mutex → Nat
  | .localWatchDispatch => 0
  | .xsel => 1
  | .wel => 2
  | .pfl => 3

inductive ServerFn where
  | xssDoWriteDeadline | queuePendingWatchEvent | queueWatchNotificationsXselLocked
  | dispatchLocalWatchEventsLocked | notifyWatchersDeadline | xssDoRmDeadline
  | handleDirectory | handleRead | handleWrite | handleMkdir | handleGetPerms | handleSetPerms
  | handleRm | handleWatch | handleUnwatch | handleResetWatches | handleControl
  | handleTransactionStart | handleTransactionStop | handleGetDomainPath
  | processPendingWatchEvents | cleanupDomainWatches | removeRefEntries
  | xssWrite | xssWriteGuestDomainRw | xssWriteGuestDomainRo | xssWriteGuestWithPermissions
  | xssRead | xssReadInteger | xssSetPerm | xssRm
  | xsReadTimeout | xsWriteTimeout | xsRmTimeout | xsDirectoryTimeout | xsGetPermissionsTimeout
  | xsSetPermissionsTimeout | xsMkdirTimeout | xsWatchTimeout | xsUnwatchTimeout
  deriving DecidableEq, Repr

abbrev LockProg := Prog Mutex ServerFn

/-- A return before anything else, `n` times possible. -/
def orReturn : Nat → LockProg → LockProg
  | 0, p => p
  | n + 1, p => .branch .done (orReturn n p)

/-- Look up a node under `xsel_mutex`: it is not there, or it is used. -/
def lookUpNode : LockProg := .branch (.unlock .xsel .done) (.unlock .xsel .done)

def writeNotify : LockProg :=
  .call .xssDoWriteDeadline (.branch .done (.call .notifyWatchersDeadline .done))

/-- A read access of the `xs_*_timeout` calls, after the three checks of their arguments. -/
def lookUpDeadline : LockProg := orReturn 3 (.lockDeadline .xsel lookUpNode .done)

/-- The end of XS_WATCH. -/
def firstEvent : LockProg :=
  .lock .xsel (.branch (.call .queuePendingWatchEvent (.unlock .xsel .done)) (.unlock .xsel .done))

/-- The end of `xss_do_rm_deadline`, where the node is freed before or it is not. -/
def dispatchRemoved : LockProg :=
  .unlock .xsel (.call .dispatchLocalWatchEventsLocked (.unlock .localWatchDispatch .done))

def ServerFn.body : ServerFn → LockProg
  | .xssDoWriteDeadline =>
    -- both the end of the function and `free_allocated` unlock
    orReturn 1 (.lockDeadline .xsel (.branch (.unlock .xsel .done) (.unlock .xsel .done)) .done)
  | .queuePendingWatchEvent => orReturn 2 (.lockDeadline .pfl (.unlock .pfl .done) .done)
  | .queueWatchNotificationsXselLocked =>
    .lockDeadline .wel
      (.loop (.branch .done (.call .queuePendingWatchEvent .done)) (.unlock .wel .done)) .done
  | .dispatchLocalWatchEventsLocked => .callbacks .done
  | .notifyWatchersDeadline =>
    .lockDeadline .localWatchDispatch
      (.lockDeadline .xsel
        (.call .queueWatchNotificationsXselLocked (.unlock .xsel
          (.call .dispatchLocalWatchEventsLocked (.unlock .localWatchDispatch .done))))
        (.unlock .localWatchDispatch .done))
      .done
  | .xssDoRmDeadline =>
    .lockDeadline .localWatchDispatch
      (.lockDeadline .xsel
        (.branch (.unlock .xsel (.unlock .localWatchDispatch .done))
          (.call .queueWatchNotificationsXselLocked (.branch dispatchRemoved dispatchRemoved)))
        (.unlock .localWatchDispatch .done))
      .done
  | .handleDirectory =>
    orReturn 1 (.lock .xsel (.branch (.unlock .xsel .done) (.branch (.unlock .xsel .done)
      (.branch (.unlock .xsel .done) (.unlock .xsel .done)))))
  | .handleRead | .handleGetPerms => orReturn 1 (.lock .xsel lookUpNode)
  | .handleSetPerms => orReturn 2 (.lock .xsel lookUpNode)
  | .handleWrite | .handleMkdir => orReturn 3 writeNotify
  | .handleRm => .call .xssDoRmDeadline .done
  | .handleWatch =>
    orReturn 2 (.lock .wel (.branch (.unlock .wel firstEvent)
      (.unlock .wel (orReturn 3 (.lock .wel (.unlock .wel firstEvent))))))
  | .handleUnwatch => orReturn 1 (.lock .wel (.unlock .wel .done))
  | .handleResetWatches => .call .cleanupDomainWatches .done
  | .handleControl | .handleTransactionStart | .handleTransactionStop
  | .handleGetDomainPath => .done
  | .processPendingWatchEvents => .lock .wel (.lock .pfl (.unlock .pfl (.unlock .wel .done)))
  | .cleanupDomainWatches => .lock .wel (.unlock .wel (.lock .pfl (.unlock .pfl .done)))
  | .removeRefEntries => .lock .xsel (.unlock .xsel .done)
  | .xssWrite | .xssWriteGuestDomainRw | .xssWriteGuestDomainRo | .xssWriteGuestWithPermissions =>
    orReturn 1 writeNotify
  | .xssRead => .lock .xsel (.unlock .xsel .done)
  | .xssReadInteger => .call .xssRead .done
  | .xssSetPerm => .lock .xsel lookUpNode
  | .xssRm => .call .xssDoRmDeadline .done
  | .xsReadTimeout | .xsDirectoryTimeout | .xsGetPermissionsTimeout | .xsSetPermissionsTimeout =>
    lookUpDeadline
  | .xsWriteTimeout | .xsMkdirTimeout => orReturn 3 writeNotify
  | .xsRmTimeout => orReturn 3 (.call .xssDoRmDeadline .done)
  | .xsWatchTimeout =>
    orReturn 2 (.lockDeadline .xsel (.unlock .xsel
      (.lockDeadline .wel (.branch (.unlock .wel .done) (.unlock .wel (orReturn 1
        (.lockDeadline .localWatchDispatch
          (.lockDeadline .wel
            (.branch (.unlock .wel (.unlock .localWatchDispatch .done))
              (.unlock .wel (.call .dispatchLocalWatchEventsLocked
                (.unlock .localWatchDispatch .done))))
            (.unlock .localWatchDispatch .done))
          .done))))
        .done)) .done)
  | .xsUnwatchTimeout => orReturn 2 (.lockDeadline .wel (.unlock .wel .done) .done)

def ServerFn.Api : ServerFn → Prop
  | .xssWrite | .xssWriteGuestDomainRw | .xssWriteGuestDomainRo | .xssWriteGuestWithPermissions
  | .xssRead | .xssReadInteger | .xssSetPerm | .xssRm | .xsReadTimeout | .xsWriteTimeout
  | .xsRmTimeout | .xsDirectoryTimeout | .xsGetPermissionsTimeout | .xsSetPermissionsTimeout
  | .xsMkdirTimeout | .xsWatchTimeout | .xsUnwatchTimeout => True
  | _ => False

/-- The callers of a function hold mutexes below this rank only. -/
def ServerFn.level : ServerFn → Nat
  | .queueWatchNotificationsXselLocked => 2
  | .queuePendingWatchEvent => 3
  | _ => 1

def ServerFn.CallableWith (f : ServerFn) (held : List Mutex) : Prop :=
  ∀ m ∈ held, m.rank < f.level

abbrev InOrderProg (p : LockProg) (held final : List Mutex) : Prop :=
  Ok Mutex.rank ServerFn.Api ServerFn.CallableWith p held final

section Functions
variable {held final : List Mutex}

theorem may_of_lt {m : Mutex} (h : ∀ m' ∈ held, m'.rank < m.rank) : May Mutex.rank held m :=
  Or.inr h

theorem may_localWatchDispatch (h : ∀ m ∈ held, m.rank < 1) :
    May Mutex.rank held .localWatchDispatch := by
  cases held with
  | nil => exact Or.inr fun _ hm => (List.not_mem_nil hm).elim
  | cons m ms =>
    have hm := h m List.mem_cons_self
    cases m with
    | localWatchDispatch => exact Or.inl List.mem_cons_self
    | xsel | wel | pfl => exact absurd hm (by decide)

theorem below_cons {m : Mutex} {n : Nat} (hm : m.rank < n) (h : ∀ m' ∈ held, m'.rank < n) :
    ∀ m' ∈ m :: held, m'.rank < n := by
  intro m' hm'
  rcases List.mem_cons.mp hm' with rfl | hm'
  · exact hm
  · exact h m' hm'

theorem below_mono {n k : Nat} (hnk : n ≤ k) (h : ∀ m ∈ held, m.rank < n) :
    ∀ m ∈ held, m.rank < k := fun m hm => Nat.lt_of_lt_of_le (h m hm) hnk

theorem inOrder_orReturn {n : Nat} {p : LockProg} (h : InOrderProg p held held) :
    InOrderProg (orReturn n p) held held := by
  induction n with
  | zero => exact h
  | succ n ih => exact ⟨rfl, ih⟩

@[simp] theorem inOrder_unlock {m : Mutex} {p : LockProg} :
    InOrderProg (.unlock m p) (m :: held) final ↔ InOrderProg p held final := by
  show m ∈ m :: held ∧ InOrderProg p ((m :: held).erase m) final ↔ _
  rw [List.erase_cons_head]
  exact ⟨And.right, fun h => ⟨List.mem_cons_self, h⟩⟩

theorem callable_api (h : ∀ m ∈ held, m.rank < 1) (f : ServerFn) (hf : f.Api) :
    f.CallableWith held := by
  cases f <;> first | exact h | exact hf.elim

theorem inOrder_writeNotify (h : ∀ m ∈ held, m.rank < 1) : InOrderProg writeNotify held held :=
  ⟨h, rfl, h, rfl⟩

theorem inOrder_lookUpNode : InOrderProg lookUpNode (.xsel :: held) held :=
  ⟨inOrder_unlock.mpr rfl, inOrder_unlock.mpr rfl⟩

theorem inOrder_firstEvent (h : ∀ m ∈ held, m.rank < 1) : InOrderProg firstEvent held held := by
  have hwith : ∀ m ∈ Mutex.xsel :: held, m.rank < 3 :=
    below_cons (by decide) (below_mono (by decide) h)
  exact ⟨may_of_lt h, ⟨hwith, inOrder_unlock.mpr rfl⟩, inOrder_unlock.mpr rfl⟩

theorem inOrder_callDispatch (h : ∀ m ∈ held, m.rank < 1) :
    InOrderProg (.call .dispatchLocalWatchEventsLocked (.unlock .localWatchDispatch .done))
      (.localWatchDispatch :: held) held :=
  ⟨below_cons (by decide) h, inOrder_unlock.mpr rfl⟩

theorem inOrder_scan (h : ∀ m ∈ held, m.rank < 1) :
    InOrderProg (.call .queueWatchNotificationsXselLocked dispatchRemoved)
      (.xsel :: .localWatchDispatch :: held) held := by
  have hwith : ∀ m ∈ Mutex.localWatchDispatch :: held, m.rank < 2 :=
    below_cons (by decide) (below_mono (by decide) h)
  exact ⟨below_cons (by decide) hwith, inOrder_unlock.mpr (inOrder_callDispatch h)⟩

theorem inOrder_watch (h : ∀ m ∈ held, m.rank < 1) :
    InOrderProg ServerFn.xsWatchTimeout.body held held := by
  have hwith : ∀ m ∈ Mutex.localWatchDispatch :: held, m.rank < 2 :=
    below_cons (by decide) (below_mono (by decide) h)
  have hwel : May Mutex.rank held .wel := may_of_lt (below_mono (by decide) h)
  refine inOrder_orReturn ⟨may_of_lt h,
    inOrder_unlock.mpr ⟨hwel, ⟨inOrder_unlock.mpr rfl, ?_⟩, rfl⟩, rfl⟩
  refine inOrder_unlock.mpr (inOrder_orReturn ⟨may_localWatchDispatch h, ?_, rfl⟩)
  refine ⟨may_of_lt hwith, ⟨?_, ?_⟩, inOrder_unlock.mpr rfl⟩
  · exact inOrder_unlock.mpr (inOrder_unlock.mpr rfl)
  · exact inOrder_unlock.mpr (inOrder_callDispatch h)

theorem inOrder_handleWatch (h : ∀ m ∈ held, m.rank < 1) :
    InOrderProg ServerFn.handleWatch.body held held := by
  have hwel : May Mutex.rank held .wel := may_of_lt (below_mono (by decide) h)
  refine inOrder_orReturn ⟨hwel, inOrder_unlock.mpr (inOrder_firstEvent h), ?_⟩
  refine inOrder_unlock.mpr (inOrder_orReturn ⟨hwel, ?_⟩)
  exact inOrder_unlock.mpr (inOrder_firstEvent h)

/-- Called with what its callers hold, a function takes the mutexes in their order and gives all
of them back on every way out. -/
theorem inOrder_body (f : ServerFn) (held : List Mutex) (h : f.CallableWith held) :
    InOrderProg f.body held held := by
  have hxsel : f.level = 1 → May Mutex.rank held .xsel := by
    intro hlevel
    rw [ServerFn.CallableWith, hlevel] at h
    exact may_of_lt h
  have hwel : f.level = 1 → May Mutex.rank held .wel := by
    intro hlevel
    rw [ServerFn.CallableWith, hlevel] at h
    exact may_of_lt (below_mono (by decide) h)
  have hpfl : f.level = 1 → May Mutex.rank held .pfl := by
    intro hlevel
    rw [ServerFn.CallableWith, hlevel] at h
    exact may_of_lt (below_mono (by decide) h)
  cases f with
  | xssDoWriteDeadline =>
    exact inOrder_orReturn ⟨hxsel rfl, ⟨inOrder_unlock.mpr rfl, inOrder_unlock.mpr rfl⟩, rfl⟩
  | queuePendingWatchEvent =>
    exact inOrder_orReturn ⟨may_of_lt h, inOrder_unlock.mpr rfl, rfl⟩
  | queueWatchNotificationsXselLocked =>
    have hwith : ∀ m ∈ Mutex.wel :: held, m.rank < 3 :=
      below_cons (by decide) (below_mono (by decide) h)
    exact ⟨may_of_lt h, ⟨⟨rfl, hwith, rfl⟩, inOrder_unlock.mpr rfl⟩, rfl⟩
  | dispatchLocalWatchEventsLocked => exact ⟨callable_api h, rfl⟩
  | notifyWatchersDeadline =>
    have hwith : ∀ m ∈ Mutex.localWatchDispatch :: held, m.rank < 1 := below_cons (by decide) h
    exact ⟨may_localWatchDispatch h,
      ⟨may_of_lt hwith, inOrder_scan h, inOrder_unlock.mpr rfl⟩, rfl⟩
  | xssDoRmDeadline =>
    have hwith : ∀ m ∈ Mutex.localWatchDispatch :: held, m.rank < 1 := below_cons (by decide) h
    have hscan := inOrder_scan h
    refine ⟨may_localWatchDispatch h, ⟨may_of_lt hwith, ⟨?_, ?_⟩, inOrder_unlock.mpr rfl⟩, rfl⟩
    · exact inOrder_unlock.mpr (inOrder_unlock.mpr rfl)
    · exact ⟨hscan.1, hscan.2, hscan.2⟩
  | handleDirectory =>
    have hend : InOrderProg (.unlock .xsel .done) (.xsel :: held) held := inOrder_unlock.mpr rfl
    exact inOrder_orReturn ⟨hxsel rfl, hend, hend, hend, hend⟩
  | handleRead | handleGetPerms | handleSetPerms =>
    exact inOrder_orReturn ⟨hxsel rfl, inOrder_lookUpNode⟩
  | handleWrite | handleMkdir => exact inOrder_orReturn (inOrder_writeNotify h)
  | handleRm | handleResetWatches => exact ⟨h, rfl⟩
  | handleWatch => exact inOrder_handleWatch h
  | handleUnwatch => exact inOrder_orReturn ⟨hwel rfl, inOrder_unlock.mpr rfl⟩
  | handleControl | handleTransactionStart | handleTransactionStop | handleGetDomainPath => rfl
  | processPendingWatchEvents =>
    have hwith : ∀ m ∈ Mutex.wel :: held, m.rank < 3 :=
      below_cons (by decide) (below_mono (by decide) h)
    exact ⟨hwel rfl, may_of_lt hwith, inOrder_unlock.mpr (inOrder_unlock.mpr rfl)⟩
  | cleanupDomainWatches =>
    exact ⟨hwel rfl, inOrder_unlock.mpr ⟨hpfl rfl, inOrder_unlock.mpr rfl⟩⟩
  | removeRefEntries | xssRead => exact ⟨hxsel rfl, inOrder_unlock.mpr rfl⟩
  | xssReadInteger | xssRm => exact ⟨h, rfl⟩
  | xssWrite | xssWriteGuestDomainRw | xssWriteGuestDomainRo | xssWriteGuestWithPermissions =>
    exact inOrder_orReturn (inOrder_writeNotify h)
  | xssSetPerm => exact ⟨hxsel rfl, inOrder_lookUpNode⟩
  | xsReadTimeout | xsDirectoryTimeout | xsGetPermissionsTimeout | xsSetPermissionsTimeout =>
    exact inOrder_orReturn ⟨hxsel rfl, inOrder_lookUpNode, rfl⟩
  | xsWriteTimeout | xsMkdirTimeout => exact inOrder_orReturn (inOrder_writeNotify h)
  | xsRmTimeout => exact inOrder_orReturn ⟨h, rfl⟩
  | xsWatchTimeout => exact inOrder_watch h
  | xsUnwatchTimeout => exact inOrder_orReturn ⟨hwel rfl, inOrder_unlock.mpr rfl, rfl⟩

end Functions

/-- Threads that call the functions of the server, any number of them and in any interleaving. -/
abbrev ServerReachable {T : Type} [DecidableEq T] (s : T → Thread Mutex) : Prop :=
  Reachable ServerFn.body ServerFn.Api s

/-- No thread waits for itself, every function returns with the mutexes it was called with, and a
thread outside the server holds none. -/
theorem server_lock_order {T : Type} [DecidableEq T] {s : T → Thread Mutex}
    (h : ServerReachable s) :
    (∀ t, ¬ Relation.TransGen (Waits s) t t) ∧
    (∀ t rest, (s t).rest = .ret :: rest → (s t).frames.head? = some (s t).held) ∧
    ∀ t, (s t).rest = [] → (s t).held = [] := by
  have hin : InOrder Mutex.rank s :=
    Reachable.inOrder inOrder_body (fun _ _ hm => (List.not_mem_nil hm).elim) h
  refine ⟨hin.acyclic, fun t rest hret => ?_, fun t hidle => hin.idle hidle⟩
  obtain ⟨frames, hframes⟩ := hin.returns hret
  rw [hframes]
  rfl

/-- One thread drops the nodes of a domain while another one waits to do the same. -/
theorem server_lock_order_waiting : ∃ s : Bool → Thread Mutex,
    ServerReachable s ∧ Waits s true false ∧ ¬ Relation.TransGen (Waits s) true true := by
  have htrace : Traces ServerFn.body ServerFn.Api ServerFn.removeRefEntries.body
      [.lock .xsel, .unlock .xsel] := .lock (.unlock .done)
  have hstart : @ServerReachable Bool _ _ :=
    (Relation.ReflTransGen.refl.tail (.start false .removeRefEntries _ rfl htrace)).tail
      (.call false _ rfl)
  have hlock : @ServerReachable Bool _ _ :=
    hstart.tail (.lock false .xsel _ rfl fun t' ht => by
      cases t' with
      | false => exact absurd rfl ht
      | true => exact List.not_mem_nil)
  have hreach : @ServerReachable Bool _ _ :=
    (hlock.tail (.start true .removeRefEntries _ rfl htrace)).tail (.call true _ rfl)
  refine ⟨_, hreach, ⟨.xsel, ⟨⟨_, Or.inl rfl⟩, List.not_mem_nil⟩, ?_, ?_⟩,
    (server_lock_order hreach).1 true⟩
  · decide
  · exact List.mem_cons_self

end Xenlib
