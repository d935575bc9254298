import Xenlib.VchanStreams

/-!
Blocking transfers through one ring of a vchan, by their accesses to what the two ends share: the
indexes, the notify bits and the semaphores. An end that finds nothing to do sets its bit and
waits without another look at the indexes.
-/

set_option autoImplicit false

namespace Xenlib

inductive VchRole where
  | reader | writer
  deriving DecidableEq, Repr

def VchRole.other : VchRole → VchRole
  | .reader => .writer
  | .writer => .reader

@[simp] theorem VchRole.other_other (role : VchRole) : role.other.other = role := by
  cases role <;> rfl

@[simp] theorem VchRole.other_ne (role : VchRole) : role.other ≠ role := by cases role <;> decide

@[simp] theorem VchRole.ne_other (role : VchRole) : role ≠ role.other := by cases role <;> decide

theorem VchRole.eq_or_eq_other (role role' : VchRole) : role' = role ∨ role' = role.other := by
  cases role <;> cases role' <;> decide

/-- The handles of the two ends, by what they do in this direction. -/
def directionHandle (server client : VchHandle) (fromServer : Bool) : VchRole → VchHandle
  | .reader => if fromServer then client else server
  | .writer => if fromServer then server else client

/-- The arguments of a call: whether there is a buffer, and its size. -/
structure VchCall where
  buf : Bool
  size : Nat
  deriving DecidableEq, Repr

/-- Where the thread of an end is in `vch_read` or `vch_write`. -/
inductive VchPc where
  | outside
  /-- At the head of the loop. -/
  | looking (call : VchCall)
  /-- The indexes gave nothing to do. -/
  | checked (call : VchCall)
  /-- In `_vch_wait`. -/
  | waiting (call : VchCall)
  /-- The bytes are being copied, and this end's index comes next. -/
  | moving (size : Nat)
  /-- The index has moved. -/
  | moved
  /-- The peer's bit was set, and it is cleared. -/
  | signalling
  deriving DecidableEq, Repr

def VchPc.isChecked : VchPc → Bool
  | .checked _ => true
  | _ => false

structure VchDirection where
  ring : VchanInterface
  pc : VchRole → VchPc
  sem : VchRole → Bool
  /-- An event for this end is on its way. -/
  event : VchRole → Bool

inductive VchStep where
  | call (role : VchRole) (call : VchCall)
  | check (role : VchRole)
  | unmask (role : VchRole)
  | take (role : VchRole)
  | advance (role : VchRole)
  | notify (role : VchRole)
  | signal (role : VchRole)
  /-- `_vch_notify_cb`. -/
  | deliver (role : VchRole)
  deriving DecidableEq, Repr

section

variable (handle : VchRole → VchHandle)

/-- What the end can take from the ring, or put in it. -/
def vchAvail (role : VchRole) (ring : VchanInterface) : Nat :=
  match role with
  | .reader => vchGetRdAvail (handle .reader) ring
  | .writer => vchGetWrAvail (handle .writer) ring

/-- The bit by which the end asks to be told, and its peer tells it. -/
def askBit : VchRole → UInt8
  | .reader => vchanNotifyWrite
  | .writer => vchanNotifyRead

def vchAdvance (role : VchRole) (ring : VchanInterface) (size : Nat) : VchanInterface :=
  match role with
  | .reader =>
    let shared := ring.shared (handle .reader).read
    ring.setShared (handle .reader).read { shared with cons := shared.cons + UInt32.ofNat size }
  | .writer =>
    let shared := ring.shared (handle .writer).write
    ring.setShared (handle .writer).write { shared with prod := shared.prod + UInt32.ofNat size }

/-- The end has asked, and was not told since. -/
def Asked (role : VchRole) (ring : VchanInterface) : Prop :=
  (if (handle role).isServer then ring.cliNotify else ring.srvNotify) &&& askBit role ≠ 0

instance (role : VchRole) (ring : VchanInterface) : Decidable (Asked handle role ring) :=
  inferInstanceAs (Decidable (_ ≠ _))

/-- The bit of the peer, as `_vch_notify` finds it. -/
def PeerAsked (role : VchRole) (ring : VchanInterface) : Prop :=
  (if (handle role).isServer then ring.srvNotify else ring.cliNotify) &&& askBit role.other ≠ 0

instance (role : VchRole) (ring : VchanInterface) : Decidable (PeerAsked handle role ring) :=
  inferInstanceAs (Decidable (_ ≠ _))

def VchDirection.setPc (s : VchDirection) (role : VchRole) (pc : VchPc) : VchDirection :=
  { s with pc := Function.update s.pc role pc }

def VchDirection.step (s : VchDirection) : VchStep → Option VchDirection
  | .call role call =>
    match s.pc role with
    | .outside => some (s.setPc role (.looking call))
    | _ => none
  | .check role =>
    match s.pc role with
    | .looking call =>
      if !vchIsLive (handle role) s.ring then some (s.setPc role .outside)
      else if vchAvail handle role s.ring = 0 then some (s.setPc role (.checked call))
      else if !call.buf then some (s.setPc role .outside)
      else some (s.setPc role (.moving (min call.size (vchAvail handle role s.ring))))
    | _ => none
  | .unmask role =>
    match s.pc role with
    | .checked call =>
      some { s.setPc role (.waiting call) with
        ring := vchUnmaskNotify (handle role) s.ring (askBit role) }
    | _ => none
  | .take role =>
    match s.pc role, s.sem role with
    | .waiting call, true =>
      some { s.setPc role (.looking call) with sem := Function.update s.sem role false }
    | _, _ => none
  | .advance role =>
    match s.pc role with
    | .moving size =>
      some { s.setPc role .moved with ring := vchAdvance handle role s.ring size }
    | _ => none
  | .notify role =>
    match s.pc role with
    | .moved =>
      some { s.setPc role (if PeerAsked handle role s.ring then .signalling else .outside) with
        ring := (vchNotify (handle role) s.ring (askBit role.other) 0).2 }
    | _ => none
  | .signal role =>
    match s.pc role with
    | .signalling =>
      some { s.setPc role .outside with event := Function.update s.event role.other true }
    | _ => none
  | .deliver role =>
    if s.event role then
      some { s with
        sem := Function.update s.sem role true
        event := Function.update s.event role false }
    else none

/-- One end is the server and the other one is not. -/
def Paired : Prop := ∀ role : VchRole, (handle role.other).isServer = !(handle role).isServer

variable {handle}

theorem directionHandle_paired {server client : VchHandle} (hserver : server.isServer = true)
    (hclient : client.isServer = false) (fromServer : Bool) :
    Paired (directionHandle server client fromServer) := by
  intro role
  cases role <;> cases fromServer <;> simp [directionHandle, VchRole.other, hserver, hclient]

theorem peerAsked_iff (hpair : Paired handle) (role : VchRole) (ring : VchanInterface) :
    PeerAsked handle role ring ↔ Asked handle role.other ring := by
  unfold PeerAsked Asked
  rw [hpair role]
  cases (handle role).isServer <;> simp

theorem vchAvail_sameRings {a b : VchanInterface} (h : a.SameRings b) (role : VchRole) :
    vchAvail handle role b = vchAvail handle role a := by
  have hshared : ∀ side, b.shared side = a.shared side := by
    intro side
    cases side
    · exact h.left
    · exact h.right
  cases role <;> simp [vchAvail, vchGetRdAvail, vchGetWrAvail, hshared]

theorem asked_advance (role role' : VchRole) (ring : VchanInterface) (size : Nat) :
    Asked handle role (vchAdvance handle role' ring size) ↔ Asked handle role ring := by
  have hbytes : (vchAdvance handle role' ring size).cliNotify = ring.cliNotify ∧
      (vchAdvance handle role' ring size).srvNotify = ring.srvNotify := by
    unfold vchAdvance VchanInterface.setShared
    cases role' <;> simp only <;> split <;> exact ⟨rfl, rfl⟩
  simp only [Asked, hbytes.1, hbytes.2]

theorem or_askBit_ne_zero (byte : UInt8) (role : VchRole) :
    (byte ||| askBit role) &&& askBit role ≠ 0 := by
  have hbit : (byte ||| askBit role) &&& askBit role = askBit role := by
    apply UInt8.toBitVec_inj.mp
    simp only [UInt8.toBitVec_and, UInt8.toBitVec_or]
    ext i hi
    simp only [BitVec.getElem_and, BitVec.getElem_or]
    cases (askBit role).toBitVec[i] <;> simp
  rw [hbit]
  cases role <;> decide

theorem asked_unmask (role : VchRole) (ring : VchanInterface) :
    Asked handle role (vchUnmaskNotify (handle role) ring (askBit role)) := by
  unfold Asked vchUnmaskNotify
  cases (handle role).isServer <;> exact or_askBit_ne_zero _ role

theorem asked_unmask_other (hpair : Paired handle) (role : VchRole) (ring : VchanInterface)
    (bit : UInt8) :
    Asked handle role (vchUnmaskNotify (handle role.other) ring bit) ↔ Asked handle role ring := by
  unfold Asked vchUnmaskNotify
  rw [hpair role]
  cases (handle role).isServer <;> simp

variable (handle)

/-- The end will be woken: its semaphore is up, or an event is sent to it. -/
def VchDirection.Coming (s : VchDirection) (role : VchRole) : Prop :=
  s.sem role = true ∨ s.event role = true ∨ s.pc role.other = .signalling

/-- The end has nothing to do, or its peer has yet to look at the bit. -/
def VchDirection.Pending (s : VchDirection) (role : VchRole) : Prop :=
  vchAvail handle role s.ring = 0 ∨ s.pc role.other = .moved

structure VchDirection.Ok (s : VchDirection) (role : VchRole) : Prop where
  checked : ∀ call, s.pc role = .checked call → s.Pending handle role ∨ s.Coming role
  waiting : ∀ call, s.pc role = .waiting call →
    (Asked handle role s.ring ∧ s.Pending handle role) ∨ s.Coming role

/-- No end is passed over: the bit of the peer is not found clear between the peer's check of the
indexes and its request, unless it has nothing to do or will be woken anyway. -/
def VchDirection.Heard (s : VchDirection) : VchStep → Prop
  | .notify role => Asked handle role.other s.ring ∨ (s.pc role.other).isChecked = false ∨
      vchAvail handle role.other s.ring = 0 ∨ s.sem role.other = true ∨ s.event role.other = true
  | _ => True

instance (s : VchDirection) : ∀ a, Decidable (s.Heard handle a)
  | .notify role => inferInstanceAs (Decidable (Asked handle role.other s.ring ∨
      (s.pc role.other).isChecked = false ∨ vchAvail handle role.other s.ring = 0 ∨
      s.sem role.other = true ∨ s.event role.other = true))
  | .call _ _ | .check _ | .unmask _ | .take _ | .advance _ | .signal _ | .deliver _ =>
    isTrue trivial

variable {handle}

theorem VchDirection.Ok.peer {s s' : VchDirection} {role : VchRole} (hs : s.Ok handle role)
    (hpc : s'.pc role = s.pc role)
    (havail : vchAvail handle role s'.ring = vchAvail handle role s.ring)
    (hasked : Asked handle role s'.ring ↔ Asked handle role s.ring)
    (hmoved : s.pc role.other = .moved → s'.pc role.other = .moved)
    (hcoming : s.Coming role → s'.Coming role) : s'.Ok handle role := by
  have hpending : s.Pending handle role → s'.Pending handle role := by
    rintro (h | h)
    · exact .inl (havail.trans h)
    · exact .inr (hmoved h)
  refine ⟨fun call hc => ?_, fun call hc => ?_⟩
  · exact (hs.checked call (hpc ▸ hc)).imp hpending hcoming
  · exact (hs.waiting call (hpc ▸ hc)).imp (fun h => ⟨hasked.mpr h.1, hpending h.2⟩) hcoming

theorem VchDirection.Ok.of_pc {s : VchDirection} {role : VchRole}
    (hchecked : ∀ call, s.pc role ≠ .checked call) (hwaiting : ∀ call, s.pc role ≠ .waiting call) :
    s.Ok handle role :=
  ⟨fun call h => absurd h (hchecked call), fun call h => absurd h (hwaiting call)⟩

@[simp] theorem VchDirection.setPc_pc (s : VchDirection) (role : VchRole) (pc : VchPc) :
    (s.setPc role pc).pc role = pc := by simp [setPc]

@[simp] theorem VchDirection.setPc_pc_other (s : VchDirection) (role : VchRole) (pc : VchPc) :
    (s.setPc role pc).pc role.other = s.pc role.other := by simp [setPc]

@[simp] theorem VchDirection.setPc_other_pc (s : VchDirection) (role : VchRole) (pc : VchPc) :
    (s.setPc role.other pc).pc role = s.pc role := by simp [setPc]

def VchStep.role : VchStep → VchRole
  | .call role _ | .check role | .unmask role | .take role | .advance role | .notify role
  | .signal role | .deliver role => role

/-- What the end's own steps keep. It asks after it has looked, and its semaphore is taken when it
goes back to look again. -/
theorem VchDirection.Ok.step_own {s s' : VchDirection} {a : VchStep} {role : VchRole}
    (hs : s.Ok handle role) (hrole : a.role = role) (hstep : s.step handle a = some s') :
    s'.Ok handle role := by
  subst hrole
  cases a with
  | call role call =>
    simp only [step] at hstep
    split at hstep <;> cases hstep
    exact .of_pc (by simp [VchStep.role]) (by simp [VchStep.role])
  | check role =>
    simp only [step] at hstep
    split at hstep
    · split at hstep
      · cases hstep
        exact .of_pc (by simp [VchStep.role]) (by simp [VchStep.role])
      split at hstep
      · case _ hnothing =>
        cases hstep
        exact ⟨fun _ _ => .inl (.inl hnothing), by simp [VchStep.role]⟩
      split at hstep <;> cases hstep <;>
        exact .of_pc (by simp [VchStep.role]) (by simp [VchStep.role])
    · cases hstep
  | unmask role =>
    simp only [step] at hstep
    split at hstep
    · case _ call hpc =>
      cases hstep
      refine ⟨by simp [VchStep.role], fun _ _ => ?_⟩
      have havail := @vchAvail_sameRings handle _ _
        (vchUnmaskNotify_sameRings (handle role) s.ring (askBit role)) role
      have hbefore : s.Pending handle role ∨ s.Coming role := hs.checked call hpc
      rcases hbefore with hpending | hcoming
      · refine .inl ⟨asked_unmask role s.ring, ?_⟩
        rcases hpending with hnothing | hmoved
        · exact .inl (havail.trans hnothing)
        · exact .inr ((setPc_pc_other s role _).trans hmoved)
      · refine .inr ?_
        simpa [Coming, VchStep.role, setPc] using hcoming
    · cases hstep
  | take role =>
    simp only [step] at hstep
    split at hstep <;> cases hstep
    exact .of_pc (by simp [VchStep.role]) (by simp [VchStep.role])
  | advance role =>
    simp only [step] at hstep
    split at hstep <;> cases hstep
    exact .of_pc (by simp [VchStep.role]) (by simp [VchStep.role])
  | notify role =>
    simp only [step] at hstep
    split at hstep <;> cases hstep
    refine .of_pc (fun call => ?_) (fun call => ?_) <;> simp only [VchStep.role, setPc_pc] <;>
      split <;> simp
  | signal role =>
    simp only [step] at hstep
    split at hstep <;> cases hstep
    exact .of_pc (by simp [VchStep.role]) (by simp [VchStep.role])
  | deliver role =>
    simp only [step] at hstep
    split at hstep
    · cases hstep
      refine ⟨fun call hc => .inr ?_, fun call hc => .inr ?_⟩ <;> simp [Coming, VchStep.role]
    · cases hstep

theorem VchDirection.Ok.setPc_peer {s : VchDirection} {role : VchRole} {pc : VchPc}
    (hs : s.Ok handle role) (hmoved : s.pc role.other ≠ .moved)
    (hsignalling : s.pc role.other ≠ .signalling) : (s.setPc role.other pc).Ok handle role := by
  refine hs.peer (by simp) rfl Iff.rfl (fun h => absurd h hmoved) ?_
  rintro (h | h | h)
  · exact .inl h
  · exact .inr (.inl h)
  · exact absurd h hsignalling

/-- The peer has moved its index: what the end found before does not hold any more, but the peer
has yet to look at the bit. -/
theorem VchDirection.Ok.advance_peer {s : VchDirection} {role : VchRole} {size : Nat}
    (hs : s.Ok handle role) (hpc : s.pc role.other = .moving size) :
    ({ s.setPc role.other .moved with
      ring := vchAdvance handle role.other s.ring size } : VchDirection).Ok handle role := by
  have hcoming : s.Coming role → s.sem role = true ∨ s.event role = true := by
    simp [Coming, hpc]
  refine ⟨fun _ _ => .inl (.inr (by simp)), fun call hc => ?_⟩
  rcases hs.waiting call (by simpa using hc) with ⟨hasked, -⟩ | h
  · exact .inl ⟨(asked_advance role role.other s.ring size).mpr hasked, .inr (by simp)⟩
  · rcases hcoming h with h | h
    · exact .inr (.inl h)
    · exact .inr (.inr (.inl h))

theorem VchDirection.Ok.notify_peer {s s' : VchDirection} {role : VchRole} (hpair : Paired handle)
    (hs : s.Ok handle role) (hheard : s.Heard handle (.notify role.other))
    (hstep : s.step handle (.notify role.other) = some s') : s'.Ok handle role := by
  simp only [step, VchRole.other_other] at hstep
  split at hstep
  · case _ hmoved =>
    cases hstep
    have hask : PeerAsked handle role.other s.ring ↔ Asked handle role s.ring := by
      simpa using peerAsked_iff hpair role.other s.ring
    have havail := @vchAvail_sameRings handle _ _
      (vchNotify_sameRings (handle role.other) s.ring (askBit role) 0) role
    by_cases hasked : Asked handle role s.ring
    · refine ⟨fun _ _ => .inr (.inr (.inr ?_)), fun _ _ => .inr (.inr (.inr ?_))⟩ <;>
        simp [hask.mpr hasked]
    · have hup : s.Coming role → s.sem role = true ∨ s.event role = true := by simp [Coming, hmoved]
      refine ⟨fun call hc => ?_, fun call hc => ?_⟩
      · have hpc : s.pc role = .checked call := by simpa using hc
        simp only [Heard, VchRole.other_other] at hheard
        rcases hheard with h | h | h | h | h
        · exact absurd h hasked
        · simp [hpc, VchPc.isChecked] at h
        · exact .inl (.inl (havail.trans h))
        · exact .inr (.inl h)
        · exact .inr (.inr (.inl h))
      · have hpc : s.pc role = .waiting call := by simpa using hc
        rcases hs.waiting call hpc with h | h
        · exact absurd h.1 hasked
        · rcases hup h with h | h
          · exact .inr (.inl h)
          · exact .inr (.inr (.inl h))
  · cases hstep

theorem VchDirection.Ok.step_peer {s s' : VchDirection} {a : VchStep} {role : VchRole}
    (hpair : Paired handle) (hs : s.Ok handle role) (hrole : a.role = role.other)
    (hheard : s.Heard handle a) (hstep : s.step handle a = some s') : s'.Ok handle role := by
  cases a with
  | call role' call =>
    obtain rfl : role' = role.other := hrole
    simp only [step] at hstep
    split at hstep
    · case _ hpc =>
      cases hstep
      exact hs.setPc_peer (by simp [hpc]) (by simp [hpc])
    · cases hstep
  | check role' =>
    obtain rfl : role' = role.other := hrole
    simp only [step] at hstep
    split at hstep
    · case _ call hpc =>
      have hsame : ∀ pc, (s.setPc role.other pc).Ok handle role :=
        fun pc => hs.setPc_peer (by simp [hpc]) (by simp [hpc])
      split at hstep
      · cases hstep; exact hsame _
      split at hstep
      · cases hstep; exact hsame _
      split at hstep <;> cases hstep <;> exact hsame _
    · cases hstep
  | unmask role' =>
    obtain rfl : role' = role.other := hrole
    simp only [step] at hstep
    split at hstep
    · case _ call hpc =>
      cases hstep
      have hset : (s.setPc role.other (.waiting call)).Ok handle role :=
        hs.setPc_peer (by simp [hpc]) (by simp [hpc])
      exact hset.peer rfl (vchAvail_sameRings (vchUnmaskNotify_sameRings _ _ _) role)
        (asked_unmask_other hpair role s.ring _) id id
    · cases hstep
  | take role' =>
    obtain rfl : role' = role.other := hrole
    simp only [step] at hstep
    split at hstep
    · case _ call hpc _ =>
      cases hstep
      have hset : (s.setPc role.other (.looking call)).Ok handle role :=
        hs.setPc_peer (by simp [hpc]) (by simp [hpc])
      exact hset.peer rfl rfl Iff.rfl id (by simp [Coming, setPc])
    · cases hstep
  | advance role' =>
    obtain rfl : role' = role.other := hrole
    simp only [step] at hstep
    split at hstep
    · case _ size hpc =>
      cases hstep
      exact hs.advance_peer hpc
    · cases hstep
  | notify role' =>
    obtain rfl : role' = role.other := hrole
    exact hs.notify_peer hpair hheard hstep
  | signal role' =>
    obtain rfl : role' = role.other := hrole
    simp only [step, VchRole.other_other] at hstep
    split at hstep
    · cases hstep
      refine ⟨fun _ _ => .inr (.inr (.inl ?_)), fun _ _ => .inr (.inr (.inl ?_))⟩ <;> simp
    · cases hstep
  | deliver role' =>
    obtain rfl : role' = role.other := hrole
    simp only [step] at hstep
    split at hstep
    · cases hstep
      exact hs.peer rfl rfl Iff.rfl id (by simp [Coming])
    · cases hstep

theorem VchDirection.Ok.step {s s' : VchDirection} {a : VchStep} (hpair : Paired handle)
    (hs : ∀ role, s.Ok handle role) (hheard : s.Heard handle a)
    (hstep : s.step handle a = some s') : ∀ role, s'.Ok handle role := by
  intro role
  rcases VchRole.eq_or_eq_other role a.role with hrole | hrole
  · exact (hs role).step_own hrole hstep
  · exact (hs role).step_peer hpair hrole hheard hstep

theorem run_vchReadLoad {s : VchDirection} {call : VchCall} (hpc : s.pc .reader = .looking call) :
    match vchReadLoad (handle .reader) s.ring call.buf call.size with
    | .error _ => s.step handle (.check .reader) = some (s.setPc .reader .outside)
    | .ok (ring, none) => ∃ s',
        Machine.run (VchDirection.step handle) s [.check .reader, .unmask .reader] = some s' ∧
          s'.pc .reader = .waiting call ∧ s'.ring = ring
    | .ok (_, some (_, size)) => ∃ s',
        Machine.run (VchDirection.step handle) s
          [.check .reader, .advance .reader, .notify .reader] = some s' ∧
          s'.ring = (vchReadEnd (handle .reader) s.ring size 0).2 := by
  unfold vchReadLoad
  cases hlive : vchIsLive (handle .reader) s.ring with
  | false => simp [VchDirection.step, hpc, hlive]
  | true =>
    by_cases havail : vchGetRdAvail (handle .reader) s.ring = 0
    · simp [Machine.run, VchDirection.step, hpc, hlive, vchAvail, havail, askBit]
      rfl
    · cases hbuf : call.buf with
      | false => simp [VchDirection.step, hpc, hlive, vchAvail, havail, hbuf]
      | true =>
        simp [Machine.run, VchDirection.step, hpc, hlive, vchAvail, havail, hbuf]
        rfl

/-- The bytes are copied before the index moves, to a part of the page that the steps leave out. -/
theorem run_vchWriteLoad {s : VchDirection} {call : VchCall} (hpc : s.pc .writer = .looking call)
    {buf : Option Bytes} (hbuf : call.buf = buf.isSome)
    (hsize : ∀ data ∈ buf, call.size = data.length) :
    match vchWriteLoad (handle .writer) s.ring buf with
    | .error _ => s.step handle (.check .writer) = some (s.setPc .writer .outside)
    | .ok (ring, none) => ∃ s',
        Machine.run (VchDirection.step handle) s [.check .writer, .unmask .writer] = some s' ∧
          s'.pc .writer = .waiting call ∧ s'.ring = ring
    | .ok (_, some (_, data)) => ∃ s',
        Machine.run (VchDirection.step handle) s
          [.check .writer, .advance .writer, .notify .writer] = some s' ∧
          s'.ring = (vchWriteEnd (handle .writer) s.ring data.length 0).2 := by
  unfold vchWriteLoad
  cases hlive : vchIsLive (handle .writer) s.ring with
  | false => simp [VchDirection.step, hpc, hlive]
  | true =>
    by_cases havail : vchGetWrAvail (handle .writer) s.ring = 0
    · simp [Machine.run, VchDirection.step, hpc, hlive, vchAvail, havail, askBit]
      rfl
    · cases buf with
      | none => simp [VchDirection.step, hpc, hlive, vchAvail, havail, hbuf]
      | some data =>
        simp [Machine.run, VchDirection.step, hpc, hlive, vchAvail, havail, hbuf, hsize]
        rfl

end

/-- In a run that passes no end over, an end that waits with its semaphore down while there is
something for it to do is sent an event, or its peer has yet to look at its bit. -/
theorem vchan_no_lost_wakeup {pathMax pathMax' minRs minWs : Nat} {calls : VchOpenCalls}
    {calls' : VchConnectCalls} {path path' : CString} {server client : VchHandle}
    {ring ring' ring'' : VchanInterface}
    (hopen : vchOpen pathMax calls path minRs minWs = .ok (server, ring))
    (hconnect : vchConnect pathMax' calls' path' ring' = (.ok client, ring''))
    (fromServer : Bool) {s₀ s : VchDirection} {steps : List VchStep}
    (hstart : ∀ role, s₀.pc role = .outside)
    (hheard : Machine.Along (VchDirection.step (directionHandle server client fromServer))
      (VchDirection.Heard (directionHandle server client fromServer)) s₀ steps)
    (hrun : Machine.run (VchDirection.step (directionHandle server client fromServer)) s₀ steps =
      some s) :
    ∀ role call, s.pc role = .waiting call → s.sem role = false →
      vchAvail (directionHandle server client fromServer) role s.ring ≠ 0 →
      s.event role = true ∨ s.pc role.other = .moved ∨ s.pc role.other = .signalling := by
  have hserver : server.isServer = true := by rw [(vchOpen_spec hopen).1]; rfl
  have hclient : client.isServer = false := by rw [(vchConnect_spec hconnect).2 client rfl]; rfl
  have hpair := directionHandle_paired hserver hclient fromServer
  have hok : ∀ role, s.Ok (directionHandle server client fromServer) role :=
    @Machine.run_invariant _ _ _
      (fun s => ∀ role, s.Ok (directionHandle server client fromServer) role) _
      (fun _ _ _ hs hheard hstep => VchDirection.Ok.step hpair hs hheard hstep) _ _ _
      (fun role => .of_pc (by simp [hstart]) (by simp [hstart])) hheard hrun
  intro role call hpc hsem havail
  rcases (hok role).waiting call hpc with ⟨-, h | h⟩ | h | h | h
  · exact absurd h havail
  · exact .inr (.inl h)
  · simp [hsem] at h
  · exact .inl h
  · exact .inr (.inr h)

/-- The page after `vch_open` with 1024 bytes to the server and 2048 from it. -/
def openedPage : VchanInterface :=
  ⟨⟨0, 0⟩, ⟨0, 0⟩, 10, 11, 2, 1, vchanNotifyWrite, 0, fun _ => 0⟩

def connectedPage : VchanInterface :=
  { openedPage with cliLive := 1, srvNotify := vchanNotifyWrite }

def toServer : VchRole → VchHandle :=
  directionHandle (serverHandle openedPage) (clientHandle openedPage) false

/-- Both semaphores start at one, and `vch_connect` has notified the server. -/
def connectedDirection : VchDirection :=
  ⟨connectedPage, fun _ => .outside, fun _ => true, fun role => decide (role = .reader)⟩

/-- The server waits for a byte, and the client writes one. -/
def wokenReader : List VchStep :=
  [.deliver .reader, .call .reader ⟨true, 16⟩, .check .reader, .unmask .reader, .take .reader,
    .check .reader, .unmask .reader, .call .writer ⟨true, 1⟩, .check .writer, .advance .writer,
    .notify .writer]

/-- The server reads it, comes back and finds nothing; the next byte comes before it asks. -/
def passedOverReader : List VchStep :=
  wokenReader ++ [.signal .writer, .deliver .reader, .take .reader, .check .reader,
    .advance .reader, .notify .reader, .call .reader ⟨true, 16⟩, .check .reader,
    .call .writer ⟨true, 1⟩, .check .writer, .advance .writer, .notify .writer, .unmask .reader]

theorem vchan_no_lost_wakeup_woken : ∃ s,
    Machine.run (VchDirection.step toServer) connectedDirection wokenReader = some s ∧
    s.pc .reader = .waiting ⟨true, 16⟩ ∧ s.sem .reader = false ∧
    vchAvail toServer .reader s.ring ≠ 0 ∧
    (s.event .reader = true ∨ s.pc .writer = .moved ∨ s.pc .writer = .signalling) := by
  refine ⟨_, rfl, rfl, rfl, by decide, ?_⟩
  exact @vchan_no_lost_wakeup 32 32 100 2000 ⟨0, true, 5, 0, 8, 0, 0, 0⟩
    ⟨0, 0, 8, 0, 5, 6, true, 0, 0, 0⟩ [] [] (serverHandle openedPage) (clientHandle openedPage)
    openedPage openedPage connectedPage rfl rfl false connectedDirection _ wokenReader
    (fun _ => rfl) (by decide) rfl .reader ⟨true, 16⟩ rfl rfl (by decide)

theorem vchan_lost_wakeup :
    vchOpen 32 ⟨0, true, 5, 0, 8, 0, 0, 0⟩ [] 100 2000 = .ok (toServer .reader, openedPage) ∧
    vchConnect 32 ⟨0, 0, 8, 0, 5, 6, true, 0, 0, 0⟩ [] openedPage =
      (.ok (toServer .writer), connectedPage) ∧
    ¬ ∀ (steps : List VchStep) (s : VchDirection) (call : VchCall),
      Machine.run (VchDirection.step toServer) connectedDirection steps = some s →
      s.pc .reader = .waiting call → s.sem .reader = false →
      vchAvail toServer .reader s.ring ≠ 0 →
      s.event .reader = true ∨ s.pc .writer = .moved ∨ s.pc .writer = .signalling := by
  refine ⟨rfl, rfl, fun hall => ?_⟩
  have hcome := hall passedOverReader _ _ rfl rfl rfl (by decide)
  exact absurd hcome (by decide)

end Xenlib
