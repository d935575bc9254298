import Xenlib.Vchan
import Xenlib.Lib.Machine

/-!
Closing a vchan. `vch_close` gives back what its end holds and leaves the live byte of the page
as it is, so that the other end goes on as if nothing had happened.
-/

set_option autoImplicit false

namespace Xenlib

inductive VchEnd where
  /-- The client before `vch_connect`. -/
  | absent
  | running (h : VchHandle)
  /-- After `vch_close`, which clears the handle. -/
  | closed
  deriving DecidableEq, Repr

structure VchEnds where
  ring : VchanInterface
  handle : Bool → VchEnd

def VchEnds.opened (server : VchHandle) (ring : VchanInterface) : VchEnds :=
  ⟨ring, fun isServer => if isServer then .running server else .absent⟩

def VchEnds.setEnd (s : VchEnds) (isServer : Bool) (e : VchEnd) : VchEnds :=
  { s with handle := Function.update s.handle isServer e }

/-- The event channel is closed, and the page freed or unmapped; nothing is written to it. -/
def vchClose (s : VchEnds) (isServer : Bool) : VchEnds := s.setEnd isServer .closed

/-- One pass through the loop of a call that blocks, or a whole call that does not. -/
inductive EndAction where
  | connect (pathMax : Nat) (calls : VchConnectCalls) (path : CString)
  | read (isServer : Bool) (buf : Bool) (size : Nat) (rc : Int)
  | write (isServer : Bool) (buf : Option Bytes) (rc : Int)
  | close (isServer : Bool)

def VchEnds.step (s : VchEnds) : EndAction → Option VchEnds
  | .connect pathMax calls path =>
    match s.handle false, vchConnect pathMax calls path s.ring with
    | .absent, (.ok h, ring) => some ({ s with ring := ring }.setEnd false (.running h))
    | .absent, (.error _, ring) => some { s with ring := ring }
    | _, _ => none
  | .read isServer buf size rc =>
    match s.handle isServer with
    | .running h => some { s with ring := (vchRead h s.ring buf size rc).2.2 }
    | _ => none
  | .write isServer buf rc =>
    match s.handle isServer with
    | .running h => some { s with ring := (vchWrite h s.ring buf rc).2 }
    | _ => none
  | .close isServer =>
    match s.handle isServer with
    | .running _ => some (vchClose s isServer)
    | _ => none

def VchanInterface.BothLive (ring : VchanInterface) : Prop := ring.cliLive ≠ 0 ∧ ring.srvLive ≠ 0

theorem vchOpen_bothLive {pathMax minRs minWs : Nat} {calls : VchOpenCalls} {path : CString}
    {server : VchHandle} {ring : VchanInterface}
    (h : vchOpen pathMax calls path minRs minWs = .ok (server, ring)) : ring.BothLive := by
  unfold vchOpen at h
  split at h
  · cases h
  split at h
  · cases h
  split at h
  · cases h
  · cases h
    simp [VchanInterface.BothLive]

theorem vchConnect_bothLive (pathMax : Nat) (calls : VchConnectCalls) (path : CString)
    {ring : VchanInterface} (h : ring.BothLive) :
    (vchConnect pathMax calls path ring).2.BothLive := by
  unfold vchConnect
  split
  · exact h
  split
  · exact h
  simp only
  split <;> simp [VchanInterface.BothLive, h.2]

theorem vchNotify_bothLive {ring : VchanInterface} (h : ring.BothLive) (handle : VchHandle)
    (rw : UInt8) (rc : Int) : (vchNotify handle ring rw rc).2.BothLive := by
  unfold vchNotify
  split <;> exact h

theorem vchUnmaskNotify_bothLive {ring : VchanInterface} (h : ring.BothLive) (handle : VchHandle)
    (bit : UInt8) : (vchUnmaskNotify handle ring bit).BothLive := by
  unfold vchUnmaskNotify
  split <;> exact h

theorem setShared_bothLive {ring : VchanInterface} (h : ring.BothLive) (side : RingSide)
    (shared : RingShared) : (ring.setShared side shared).BothLive := by
  cases side <;> exact h

theorem BothLive.isLive {ring : VchanInterface} (h : ring.BothLive) (handle : VchHandle) :
    vchIsLive handle ring = true := by
  unfold vchIsLive
  split <;> simp [h.1, h.2]

/-- Between two live ends a pass of `vch_read` finds bytes, or it asks to be told. -/
theorem vchReadLoad_bothLive {ring : VchanInterface} (h : ring.BothLive) (handle : VchHandle)
    (buf : Bool) (size : Nat) :
    vchReadLoad handle ring buf size = .error .enobufs ∨
      (∃ idx n, vchReadLoad handle ring buf size = .ok (ring, some (idx, n))) ∨
      vchReadLoad handle ring buf size =
        .ok (vchUnmaskNotify handle ring vchanNotifyWrite, none) := by
  unfold vchReadLoad
  rw [BothLive.isLive h]
  by_cases havail : vchGetRdAvail handle ring = 0
  · exact Or.inr (Or.inr (by simp [havail]))
  · cases buf with
    | false => exact Or.inl (by simp [havail])
    | true =>
      exact Or.inr (Or.inl ⟨(ring.shared handle.read).cons.toNat &&& (2 ^ handle.readOrd - 1),
        min size (vchGetRdAvail handle ring), by simp [havail]⟩)

theorem vchWriteLoad_bothLive {ring : VchanInterface} (h : ring.BothLive) (handle : VchHandle)
    (buf : Option Bytes) :
    vchWriteLoad handle ring buf = .error .enobufs ∨
      (∃ idx data, vchWriteLoad handle ring buf = .ok (ring, some (idx, data))) ∨
      vchWriteLoad handle ring buf = .ok (vchUnmaskNotify handle ring vchanNotifyRead, none) := by
  unfold vchWriteLoad
  rw [BothLive.isLive h]
  by_cases havail : vchGetWrAvail handle ring = 0
  · exact Or.inr (Or.inr (by simp [havail]))
  · cases buf with
    | none => exact Or.inl (by simp [havail])
    | some data =>
      exact Or.inr (Or.inl ⟨(ring.shared handle.write).prod.toNat &&& (2 ^ handle.writeOrd - 1),
        data.take (min data.length (vchGetWrAvail handle ring)), by simp [havail]⟩)

/-- A call between two live ends keeps them live and does not report the peer as gone. -/
theorem vchRead_bothLive {ring : VchanInterface} (h : ring.BothLive) (handle : VchHandle)
    (buf : Bool) (size : Nat) (rc : Int) :
    (vchRead handle ring buf size rc).1 ≠ .error .enotconn ∧
      (vchRead handle ring buf size rc).2.2.BothLive := by
  unfold vchRead
  rcases vchReadLoad_bothLive h handle buf size with hl | ⟨idx, n, hl⟩ | hl
  · simp [hl, h]
  · simp only [hl, vchReadEnd]
    refine ⟨?_, vchNotify_bothLive (setShared_bothLive h _ _) _ _ _⟩
    split <;> simp
  · simp [hl, vchUnmaskNotify_bothLive h]

theorem vchWrite_bothLive {ring : VchanInterface} (h : ring.BothLive) (handle : VchHandle)
    (buf : Option Bytes) (rc : Int) :
    (vchWrite handle ring buf rc).1 ≠ .error .enotconn ∧
      (vchWrite handle ring buf rc).2.BothLive := by
  unfold vchWrite
  rcases vchWriteLoad_bothLive h handle buf with hl | ⟨idx, data, hl⟩ | hl
  · simp [hl, h]
  · simp only [hl, vchWriteEnd]
    have hcopied : (vchWriteCopy handle ring idx data).BothLive := h
    refine ⟨?_, vchNotify_bothLive (setShared_bothLive hcopied _ _) _ _ _⟩
    split <;> simp
  · simp [hl, vchUnmaskNotify_bothLive h]

theorem VchEnds.step_bothLive {s s' : VchEnds} {a : EndAction} (h : s.ring.BothLive)
    (hstep : s.step a = some s') : s'.ring.BothLive := by
  cases a with
  | connect pathMax calls path =>
    have hring := vchConnect_bothLive pathMax calls path h
    simp only [step] at hstep
    split at hstep
    · rename_i _ hc
      cases hstep
      rw [hc] at hring
      exact hring
    · rename_i _ hc
      cases hstep
      rw [hc] at hring
      exact hring
    · cases hstep
  | read isServer buf size rc =>
    simp only [step] at hstep
    split at hstep
    · cases hstep
      exact (vchRead_bothLive h _ _ _ _).2
    · cases hstep
  | write isServer buf rc =>
    simp only [step] at hstep
    split at hstep
    · cases hstep
      exact (vchWrite_bothLive h _ _ _).2
    · cases hstep
  | close isServer =>
    simp only [step] at hstep
    split at hstep
    · cases hstep
      exact h
    · cases hstep

/-- After one end has closed no call of the other end says so, and no pass of a call that blocks
finds it out. -/
theorem vchan_never_seen_closed {pathMax minRs minWs : Nat} {calls : VchOpenCalls} {path : CString}
    {server : VchHandle} {ring : VchanInterface}
    (hopen : vchOpen pathMax calls path minRs minWs = .ok (server, ring))
    {actions : List EndAction} {s : VchEnds}
    (hrun : Machine.run VchEnds.step (VchEnds.opened server ring) actions = some s) :
    ∀ (closer : Bool) (h : VchHandle), s.handle closer = .closed → s.handle (!closer) = .running h →
      (∀ buf size rc, (vchRead h s.ring buf size rc).1 ≠ .error .enotconn ∧
        vchReadLoad h s.ring buf size ≠ .error .enotconn) ∧
      (∀ buf rc, (vchWrite h s.ring buf rc).1 ≠ .error .enotconn ∧
        vchWriteLoad h s.ring buf ≠ .error .enotconn) := by
  have hlive : s.ring.BothLive :=
    Machine.run_keeps (fun _ _ _ hok hstep => VchEnds.step_bothLive hok hstep)
      (vchOpen_bothLive hopen) hrun
  intro closer h _ _
  refine ⟨fun buf size rc => ⟨(vchRead_bothLive hlive h buf size rc).1, ?_⟩,
    fun buf rc => ⟨(vchWrite_bothLive hlive h buf rc).1, ?_⟩⟩
  · rcases vchReadLoad_bothLive hlive h buf size with hl | ⟨idx, n, hl⟩ | hl <;> simp [hl]
  · rcases vchWriteLoad_bothLive hlive h buf with hl | ⟨idx, data, hl⟩ | hl <;> simp [hl]

def closingCalls : VchOpenCalls := ⟨0, true, 5, 0, 8, 0, 0, 0⟩

/-- The client connects, and the server closes. -/
def closingServer : List EndAction :=
  [.connect 32 ⟨0, 0, 8, 0, 5, 6, true, 0, 0, 0⟩ [], .close true]

theorem vchan_never_seen_closed_server : ∃ server ring s h,
    vchOpen 32 closingCalls [] 100 2000 = .ok (server, ring) ∧
    Machine.run VchEnds.step (VchEnds.opened server ring) closingServer = some s ∧
    s.handle true = .closed ∧ s.handle false = .running h ∧
    ∀ buf rc, (vchWrite h s.ring buf rc).1 ≠ .error .enotconn := by
  refine ⟨_, _, _, _, rfl, rfl, rfl, rfl, fun buf rc => ?_⟩
  exact ((@vchan_never_seen_closed 32 100 2000 closingCalls [] _ _ rfl closingServer _ rfl true _
    rfl rfl).2 buf rc).1

/-- The client still sends its bytes. -/
theorem closed_server_unseen : ¬ ∀ (server : VchHandle) (ring : VchanInterface)
    (actions : List EndAction) (s : VchEnds) (closer : Bool) (h : VchHandle) (buf : Option Bytes),
    vchOpen 32 closingCalls [] 100 2000 = .ok (server, ring) →
    Machine.run VchEnds.step (VchEnds.opened server ring) actions = some s →
    s.handle closer = .closed → s.handle (!closer) = .running h →
    (vchWrite h s.ring buf 0).1 = .error .enotconn := by
  intro hall
  have hsent := hall _ _ closingServer _ true _ (some [7]) rfl rfl rfl rfl
  exact absurd hsent (by decide)

end Xenlib
