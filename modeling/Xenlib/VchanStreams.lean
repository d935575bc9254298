import Xenlib.Lib.Machine
import Xenlib.Vchan

/-!
A connected vchan as two byte streams. The server may already use its end before the
client connects. Every transfer is cut into its parts, and the parts of the four callers
interleave. `true` names the stream that the server writes.
-/

set_option autoImplicit false

namespace Xenlib

open Cyclic

def streamSide (fromServer : Bool) : RingSide := if fromServer then .right else .left

def VchanInterface.order (ring : VchanInterface) : RingSide → Nat
  | .left => ring.leftOrder
  | .right => ring.rightOrder

def VchanInterface.area (ring : VchanInterface) (side : RingSide) : Nat → UInt8 :=
  fun i => ring.page (2 ^ ring.order side + i)

structure VchRun where
  ring : VchanInterface
  server : VchHandle
  client : Option VchHandle
  links : Bool → Link UInt8

def VchRun.start (server : VchHandle) (ring : VchanInterface) : VchRun :=
  ⟨ring, server, none, fun _ => .start⟩

def VchRun.sender (s : VchRun) (fromServer : Bool) : Option VchHandle :=
  if fromServer then some s.server else s.client

def VchRun.receiver (s : VchRun) (fromServer : Bool) : Option VchHandle :=
  if fromServer then s.client else some s.server

def VchRun.update (s : VchRun) (fromServer : Bool) (ring : VchanInterface) (link : Link UInt8) :
    VchRun :=
  { s with ring := ring, links := Function.update s.links fromServer link }

inductive VchAction where
  | connect (pathMax : Nat) (calls : VchConnectCalls) (path : CString)
  | writeLoad (fromServer : Bool) (buf : Option Bytes)
  | writeCopy (fromServer : Bool)
  | writeEnd (fromServer : Bool) (rc : Int)
  | readLoad (fromServer : Bool) (buf : Bool) (size : Nat)
  | readCopy (fromServer : Bool)
  | readEnd (fromServer : Bool) (rc : Int)

def VchRun.write (s : VchRun) (fromServer : Bool) (h : VchHandle) (buf : Option Bytes) :
    VchRun :=
  match vchWriteLoad h s.ring buf with
  | .error _ => s
  | .ok (ring, none) => { s with ring := ring }
  | .ok (ring, some (idx, data)) =>
    s.update fromServer ring { s.links fromServer with writer := .loaded idx data }

def VchRun.read (s : VchRun) (fromServer : Bool) (h : VchHandle) (buf : Bool) (size : Nat) :
    VchRun :=
  match vchReadLoad h s.ring buf size with
  | .error _ => s
  | .ok (ring, none) => { s with ring := ring }
  | .ok (ring, some (idx, n)) =>
    s.update fromServer ring { s.links fromServer with reader := .loaded idx n }

def VchRun.step (s : VchRun) : VchAction → Option VchRun
  | .connect pathMax calls path =>
    match s.client, vchConnect pathMax calls path s.ring with
    | some _, _ => none
    | none, (.error _, ring) => some { s with ring := ring }
    | none, (.ok h, ring) => some { s with ring := ring, client := some h }
  | .writeLoad fromServer buf =>
    match s.sender fromServer, (s.links fromServer).writer with
    | some h, .idle => some (s.write fromServer h buf)
    | _, _ => none
  | .writeCopy fromServer =>
    match s.sender fromServer, (s.links fromServer).writer with
    | some h, .loaded idx data =>
      some (s.update fromServer (vchWriteCopy h s.ring idx data)
        { s.links fromServer with writer := .copied data })
    | _, _ => none
  | .writeEnd fromServer rc =>
    match s.sender fromServer, (s.links fromServer).writer with
    | some h, .copied data =>
      some (s.update fromServer (vchWriteEnd h s.ring data.length rc).2
        { s.links fromServer with writer := .idle, sent := (s.links fromServer).sent ++ data })
    | _, _ => none
  | .readLoad fromServer buf size =>
    match s.receiver fromServer, (s.links fromServer).reader with
    | some h, .idle => some (s.read fromServer h buf size)
    | _, _ => none
  | .readCopy fromServer =>
    match s.receiver fromServer, (s.links fromServer).reader with
    | some h, .loaded idx n =>
      some (s.update fromServer s.ring
        { s.links fromServer with reader := .copied (vchReadCopy h s.ring idx n) })
    | _, _ => none
  | .readEnd fromServer rc =>
    match s.receiver fromServer, (s.links fromServer).reader with
    | some h, .copied data =>
      some (s.update fromServer (vchReadEnd h s.ring data.length rc).2
        { s.links fromServer with
          reader := .idle, received := (s.links fromServer).received ++ data })
    | _, _ => none

def serverHandle (ring : VchanInterface) : VchHandle :=
  ⟨true, ring.leftOrder, ring.rightOrder, 2 ^ ring.leftOrder, 2 ^ ring.rightOrder, .left, .right⟩

def clientHandle (ring : VchanInterface) : VchHandle :=
  ⟨false, ring.rightOrder, ring.leftOrder, 2 ^ ring.rightOrder, 2 ^ ring.leftOrder, .right, .left⟩

/-- One ring has 1024 bytes and the other 2048. -/
def VchanInterface.OrdersOk (ring : VchanInterface) : Prop :=
  ring.leftOrder = 10 ∧ ring.rightOrder = 11 ∨ ring.leftOrder = 11 ∧ ring.rightOrder = 10

theorem vchOrders_spec {minRs minWs readOrd writeOrd : Nat}
    (h : vchOrders minRs minWs = some (readOrd, writeOrd)) :
    (readOrd = 10 ∧ writeOrd = 11 ∨ readOrd = 11 ∧ writeOrd = 10) ∧
      minRs ≤ 2 ^ readOrd ∧ minWs ≤ 2 ^ writeOrd := by
  unfold vchOrders at h
  split at h
  · cases h
    exact ⟨.inl ⟨rfl, rfl⟩, ‹_›⟩
  split at h
  · cases h
    exact ⟨.inr ⟨rfl, rfl⟩, ‹_›⟩
  · cases h

theorem vchOpen_spec {pathMax minRs minWs : Nat} {calls : VchOpenCalls} {path : CString}
    {server : VchHandle} {ring : VchanInterface}
    (h : vchOpen pathMax calls path minRs minWs = .ok (server, ring)) :
    server = serverHandle ring ∧ ring.OrdersOk ∧ minRs ≤ 2 ^ ring.leftOrder ∧
      minWs ≤ 2 ^ ring.rightOrder ∧ ring.left = ⟨0, 0⟩ ∧ ring.right = ⟨0, 0⟩ := by
  unfold vchOpen at h
  split at h
  · cases h
  split at h
  · cases h
  · case h_2 readOrd writeOrd horders =>
    obtain ⟨hords, hrs, hws⟩ := vchOrders_spec horders
    split at h
    · cases h
    · cases h
      exact ⟨rfl, hords, hrs, hws, rfl, rfl⟩

structure VchanInterface.SameRings (a b : VchanInterface) : Prop where
  left : b.left = a.left
  right : b.right = a.right
  leftOrder : b.leftOrder = a.leftOrder
  rightOrder : b.rightOrder = a.rightOrder
  page : b.page = a.page

theorem vchNotify_sameRings (h : VchHandle) (ring : VchanInterface) (rw : UInt8) (rc : Int) :
    ring.SameRings (vchNotify h ring rw rc).2 := by
  unfold vchNotify
  split <;> exact ⟨rfl, rfl, rfl, rfl, rfl⟩

theorem vchUnmaskNotify_sameRings (h : VchHandle) (ring : VchanInterface) (bit : UInt8) :
    ring.SameRings (vchUnmaskNotify h ring bit) := by
  unfold vchUnmaskNotify
  split <;> exact ⟨rfl, rfl, rfl, rfl, rfl⟩

theorem vchConnect_spec {pathMax : Nat} {calls : VchConnectCalls} {path : CString}
    {ring ring' : VchanInterface} {result : Except VchErr VchHandle}
    (hconnect : vchConnect pathMax calls path ring = (result, ring')) :
    ring.SameRings ring' ∧ ∀ h, result = .ok h → h = clientHandle ring := by
  unfold vchConnect at hconnect
  split at hconnect
  · cases hconnect
    exact ⟨⟨rfl, rfl, rfl, rfl, rfl⟩, by simp⟩
  split at hconnect
  · cases hconnect
    exact ⟨⟨rfl, rfl, rfl, rfl, rfl⟩, by simp⟩
  split at hconnect
  · cases hconnect
    exact ⟨⟨rfl, rfl, rfl, rfl, rfl⟩, by simp⟩
  · cases hconnect
    refine ⟨⟨rfl, rfl, rfl, rfl, rfl⟩, ?_⟩
    rintro h ⟨⟩
    rfl

def VchanInterface.Carries (ring : VchanInterface) (fromServer : Bool) (link : Link UInt8) : Prop :=
  Stream (2 ^ ring.order (streamSide fromServer)) (ring.area (streamSide fromServer))
    (ring.shared (streamSide fromServer)).cons (ring.shared (streamSide fromServer)).prod
    link.writer link.reader link.sent link.received

structure VchRun.Ok (minRs minWs : Nat) (s : VchRun) : Prop where
  orders : s.ring.OrdersOk
  server : s.server = serverHandle s.ring
  client : ∀ h, s.client = some h → h = clientHandle s.ring
  sizes : minRs ≤ 2 ^ s.ring.leftOrder ∧ minWs ≤ 2 ^ s.ring.rightOrder
  carries : ∀ fromServer, s.ring.Carries fromServer (s.links fromServer)

theorem VchanInterface.SameRings.view {a b : VchanInterface} (h : a.SameRings b)
    (side : RingSide) :
    b.order side = a.order side ∧ b.area side = a.area side ∧ b.shared side = a.shared side := by
  have horder : b.order side = a.order side := by
    cases side with
    | left => exact h.leftOrder
    | right => exact h.rightOrder
  refine ⟨horder, ?_, ?_⟩
  · funext i
    simp only [VchanInterface.area, horder, h.page]
  · cases side with
    | left => exact h.left
    | right => exact h.right

theorem VchanInterface.SameRings.carries {a b : VchanInterface} (h : a.SameRings b)
    {fromServer : Bool} {link : Link UInt8} (hc : a.Carries fromServer link) :
    b.Carries fromServer link := by
  obtain ⟨horder, harea, hshared⟩ := h.view (streamSide fromServer)
  unfold VchanInterface.Carries
  rw [horder, harea, hshared]
  exact hc

section

variable {minRs minWs : Nat} {s : VchRun}

theorem VchRun.Ok.sameRings {ring : VchanInterface} (h : s.Ok minRs minWs)
    (hr : s.ring.SameRings ring) : ({ s with ring := ring } : VchRun).Ok minRs minWs := by
  have horders := h.orders
  have hserver := h.server
  have hclient := h.client
  have hsizes := h.sizes
  refine ⟨?_, ?_, ?_, ?_, fun fromServer => hr.carries (h.carries fromServer)⟩
  · simpa [VchanInterface.OrdersOk, hr.leftOrder, hr.rightOrder] using horders
  · simpa [serverHandle, hr.leftOrder, hr.rightOrder] using hserver
  · simpa [clientHandle, hr.leftOrder, hr.rightOrder] using hclient
  · simpa [hr.leftOrder, hr.rightOrder] using hsizes

theorem VchRun.Ok.update {fromServer : Bool} {ring : VchanInterface} {link : Link UInt8}
    (h : s.Ok minRs minWs) (hlo : ring.leftOrder = s.ring.leftOrder)
    (hro : ring.rightOrder = s.ring.rightOrder) (hown : ring.Carries fromServer link)
    (hother : ring.Carries (!fromServer) (s.links !fromServer)) :
    (s.update fromServer ring link).Ok minRs minWs := by
  have horders := h.orders
  have hserver := h.server
  have hclient := h.client
  have hsizes := h.sizes
  refine ⟨?_, ?_, ?_, ?_, fun side => ?_⟩
  · simpa [VchRun.update, VchanInterface.OrdersOk, hlo, hro] using horders
  · simpa [VchRun.update, serverHandle, hlo, hro] using hserver
  · simpa [VchRun.update, clientHandle, hlo, hro] using hclient
  · simpa [VchRun.update, hlo, hro] using hsizes
  · by_cases hside : side = fromServer
    · subst hside
      simpa [VchRun.update] using hown
    · obtain rfl : side = !fromServer := by cases side <;> cases fromServer <;> simp_all
      simpa [VchRun.update] using hother

theorem VchRun.Ok.sender {fromServer : Bool} {h : VchHandle} (hs : s.Ok minRs minWs)
    (hsender : s.sender fromServer = some h) :
    h.write = streamSide fromServer ∧ h.writeOrd = s.ring.order (streamSide fromServer) ∧
      h.writeCbuf = 2 ^ s.ring.order (streamSide fromServer) := by
  cases fromServer with
  | true =>
    cases hsender
    rw [hs.server]
    exact ⟨rfl, rfl, rfl⟩
  | false =>
    rw [hs.client h hsender]
    exact ⟨rfl, rfl, rfl⟩

theorem VchRun.Ok.receiver {fromServer : Bool} {h : VchHandle} (hs : s.Ok minRs minWs)
    (hreceiver : s.receiver fromServer = some h) :
    h.read = streamSide fromServer ∧ h.readOrd = s.ring.order (streamSide fromServer) ∧
      h.readCbuf = 2 ^ s.ring.order (streamSide fromServer) := by
  cases fromServer with
  | true =>
    rw [hs.client h hreceiver]
    exact ⟨rfl, rfl, rfl⟩
  | false =>
    cases hreceiver
    rw [hs.server]
    exact ⟨rfl, rfl, rfl⟩

end

theorem vchWriteLoad_spec {h : VchHandle} {ring ring' : VchanInterface} {buf : Option Bytes}
    {idx : Nat} {data : Bytes}
    (hbound : ((ring.shared h.write).prod - (ring.shared h.write).cons).toNat ≤ 2 ^ h.writeOrd)
    (hsize : 2 ^ h.writeOrd < 2 ^ 32)
    (hload : vchWriteLoad h ring buf = .ok (ring', some (idx, data))) :
    ring' = ring ∧ idx = (ring.shared h.write).prod.toNat % 2 ^ h.writeOrd ∧
      ((ring.shared h.write).prod - (ring.shared h.write).cons).toNat + data.length ≤
        2 ^ h.writeOrd := by
  have havail : vchGetWrAvail h ring =
      2 ^ h.writeOrd - ((ring.shared h.write).prod - (ring.shared h.write).cons).toNat := by
    unfold vchGetWrAvail
    rw [UInt32.toNat_sub_of_le, UInt32.toNat_ofNat_of_lt' hsize]
    rw [UInt32.le_iff_toNat_le, UInt32.toNat_ofNat_of_lt' hsize]
    exact hbound
  unfold vchWriteLoad at hload
  split at hload
  · cases hload
  dsimp only at hload
  split at hload
  · cases buf with
    | none => cases hload
    | some data =>
      cases hload
      refine ⟨rfl, Nat.and_two_pow_sub_one_eq_mod _ _, ?_⟩
      rw [havail, List.length_take]
      omega
  · cases hload

theorem vchWriteLoad_none {h : VchHandle} {ring ring' : VchanInterface} {buf : Option Bytes}
    (hload : vchWriteLoad h ring buf = .ok (ring', none)) : ring.SameRings ring' := by
  unfold vchWriteLoad at hload
  split at hload
  · cases hload
  dsimp only at hload
  split at hload
  · cases buf <;> cases hload
  · cases hload
    exact vchUnmaskNotify_sameRings h ring _

theorem vchReadLoad_spec {h : VchHandle} {ring ring' : VchanInterface} {buf : Bool} {size : Nat}
    {idx n : Nat} (hload : vchReadLoad h ring buf size = .ok (ring', some (idx, n))) :
    ring' = ring ∧ idx = (ring.shared h.read).cons.toNat % 2 ^ h.readOrd ∧
      n ≤ ((ring.shared h.read).prod - (ring.shared h.read).cons).toNat := by
  unfold vchReadLoad at hload
  split at hload
  · cases hload
  dsimp only at hload
  split at hload
  · split at hload
    · cases hload
    · cases hload
      exact ⟨rfl, Nat.and_two_pow_sub_one_eq_mod _ _, Nat.min_le_right _ _⟩
  · cases hload

theorem vchReadLoad_none {h : VchHandle} {ring ring' : VchanInterface} {buf : Bool} {size : Nat}
    (hload : vchReadLoad h ring buf size = .ok (ring', none)) : ring.SameRings ring' := by
  unfold vchReadLoad at hload
  split at hload
  · cases hload
  dsimp only at hload
  split at hload
  · split at hload <;> cases hload
  · cases hload
    exact vchUnmaskNotify_sameRings h ring _

theorem vchReadCopy_area {h : VchHandle} {ring : VchanInterface} {side : RingSide} (idx n : Nat)
    (hord : h.readOrd = ring.order side) (hbuf : h.readCbuf = 2 ^ ring.order side) :
    vchReadCopy h ring idx n = sliceTwo (2 ^ ring.order side) (ring.area side) idx n := by
  simp only [vchReadCopy, sliceTwo, hord, hbuf, slice_shift]
  rw [← Nat.add_zero (2 ^ ring.order side), slice_shift]
  rfl

section WriteCopy

variable {h : VchHandle} {ring : VchanInterface} {side : RingSide} {idx : Nat} {data : Bytes}

theorem vchWriteCopy_shift (other : RingSide) :
    (vchWriteCopy h ring idx data).area other =
      fun i => (vchWriteCopy h ring idx data).page (2 ^ ring.order other + i) := by
  cases other <;> rfl

theorem vchWriteCopy_page (hord : h.writeOrd = ring.order side)
    (hbuf : h.writeCbuf = 2 ^ ring.order side) :
    (vchWriteCopy h ring idx data).page =
      blit (blit ring.page (2 ^ ring.order side + idx)
          (data.take (min (2 ^ ring.order side - idx) data.length)))
        (2 ^ ring.order side + 0) (data.drop (min (2 ^ ring.order side - idx) data.length)) := by
  simp only [vchWriteCopy, hord, hbuf, Nat.add_zero]

theorem vchWriteCopy_area (hord : h.writeOrd = ring.order side)
    (hbuf : h.writeCbuf = 2 ^ ring.order side) :
    (vchWriteCopy h ring idx data).area side =
      blitTwo (2 ^ ring.order side) (ring.area side) idx data := by
  rw [vchWriteCopy_shift, vchWriteCopy_page hord hbuf, blit_shift, blit_shift]
  rfl

theorem vchWriteCopy_other {other : RingSide} (horders : ring.OrdersOk) (hne : side ≠ other)
    (hord : h.writeOrd = ring.order side) (hbuf : h.writeCbuf = 2 ^ ring.order side)
    (hidx : idx ≤ 2 ^ ring.order side) (hlen : data.length ≤ 2 ^ ring.order side) :
    ∀ i < 2 ^ ring.order other,
      (vchWriteCopy h ring idx data).area other i = ring.area other i := by
  intro i hi
  have hapart : 2 ^ ring.order other + i < 2 ^ ring.order side ∨
      2 ^ ring.order side + 2 ^ ring.order side ≤ 2 ^ ring.order other + i := by
    rcases horders with ⟨hl, hr⟩ | ⟨hl, hr⟩ <;> cases side <;> cases other <;>
      simp_all [VchanInterface.order] <;> omega
  rw [vchWriteCopy_shift, vchWriteCopy_page hord hbuf]
  dsimp only
  rcases hapart with hlt | hge
  · rw [blit_below _ (by omega), blit_below _ (by omega)]
    rfl
  · rw [blit_above (by rw [List.length_drop]; omega), blit_above (by rw [List.length_take]; omega)]
    rfl

end WriteCopy

theorem VchanInterface.setShared_view (ring : VchanInterface) (side : RingSide)
    (shared : RingShared) (other : RingSide) :
    (ring.setShared side shared).order other = ring.order other ∧
      (ring.setShared side shared).area other = ring.area other ∧
      (ring.setShared side shared).shared other =
        if other = side then shared else ring.shared other := by
  cases side <;> cases other <;> exact ⟨rfl, rfl, rfl⟩

theorem VchanInterface.Carries.setShared {ring : VchanInterface} {fromServer : Bool}
    {link link' : Link UInt8} {shared : RingShared}
    (h : Stream (2 ^ ring.order (streamSide fromServer)) (ring.area (streamSide fromServer))
      shared.cons shared.prod link'.writer link'.reader link'.sent link'.received)
    (hother : ring.Carries (!fromServer) link) :
    (ring.setShared (streamSide fromServer) shared).Carries fromServer link' ∧
      (ring.setShared (streamSide fromServer) shared).Carries (!fromServer) link := by
  have hne : streamSide (!fromServer) ≠ streamSide fromServer := by cases fromServer <;> decide
  obtain ⟨horder, harea, hshared⟩ :=
    ring.setShared_view (streamSide fromServer) shared (streamSide fromServer)
  obtain ⟨horder', harea', hshared'⟩ :=
    ring.setShared_view (streamSide fromServer) shared (streamSide !fromServer)
  rw [if_pos rfl] at hshared
  rw [if_neg hne] at hshared'
  unfold VchanInterface.Carries
  rw [horder, harea, hshared, horder', harea', hshared']
  exact ⟨h, hother⟩

theorem VchanInterface.setShared_orders (ring : VchanInterface) (side : RingSide)
    (shared : RingShared) :
    (ring.setShared side shared).leftOrder = ring.leftOrder ∧
      (ring.setShared side shared).rightOrder = ring.rightOrder := by
  cases side <;> exact ⟨rfl, rfl⟩

section Steps

variable {minRs minWs : Nat} {s : VchRun} {fromServer : Bool} {h : VchHandle}

theorem VchRun.Ok.writeLoad (hs : s.Ok minRs minWs) (hsender : s.sender fromServer = some h)
    (buf : Option Bytes) : (s.write fromServer h buf).Ok minRs minWs := by
  obtain ⟨hside, hord, -⟩ := hs.sender hsender
  have hcarries := hs.carries fromServer
  unfold VchRun.write
  split
  · exact hs
  · case h_2 ring hload => exact hs.sameRings (vchWriteLoad_none hload)
  · case h_3 ring idx data hload =>
    have hspec := vchWriteLoad_spec (by rw [hside, hord]; exact hcarries.bound)
      (by rw [hord]; exact hcarries.size.2) hload
    rw [hside, hord] at hspec
    obtain ⟨rfl, rfl, hfit⟩ := hspec
    exact hs.update rfl rfl (hcarries.loadWrite hfit) (hs.carries _)

theorem VchRun.Ok.readLoad (hs : s.Ok minRs minWs) (hreceiver : s.receiver fromServer = some h)
    (buf : Bool) (size : Nat) : (s.read fromServer h buf size).Ok minRs minWs := by
  obtain ⟨hside, hord, -⟩ := hs.receiver hreceiver
  have hcarries := hs.carries fromServer
  unfold VchRun.read
  split
  · exact hs
  · case h_2 ring hload => exact hs.sameRings (vchReadLoad_none hload)
  · case h_3 ring idx n hload =>
    have hspec := vchReadLoad_spec hload
    rw [hside, hord] at hspec
    obtain ⟨rfl, rfl, hle⟩ := hspec
    exact hs.update rfl rfl (hcarries.loadRead hle) (hs.carries _)

theorem VchRun.Ok.writeCopy {idx : Nat} {data : Bytes} (hs : s.Ok minRs minWs)
    (hsender : s.sender fromServer = some h)
    (hwriter : (s.links fromServer).writer = .loaded idx data) :
    (s.update fromServer (vchWriteCopy h s.ring idx data)
      { s.links fromServer with writer := .copied data }).Ok minRs minWs := by
  obtain ⟨-, hord, hbuf⟩ := hs.sender hsender
  have hne : streamSide fromServer ≠ streamSide !fromServer := by cases fromServer <;> decide
  have hcarries : Stream _ _ _ _ _ _ _ _ := hs.carries fromServer
  rw [hwriter] at hcarries
  have hfit := hcarries.writer.2
  have hidx : idx ≤ 2 ^ s.ring.order (streamSide fromServer) := by
    rw [hcarries.writer.1]
    exact (Nat.mod_lt _ hcarries.pos).le
  have horder : ∀ side, (vchWriteCopy h s.ring idx data).order side = s.ring.order side ∧
      (vchWriteCopy h s.ring idx data).shared side = s.ring.shared side := by
    intro side
    cases side <;> exact ⟨rfl, rfl⟩
  refine hs.update rfl rfl ?_ ?_
  · unfold VchanInterface.Carries
    rw [vchWriteCopy_area hord hbuf, (horder _).1, (horder _).2]
    exact hcarries.blitTwoIn
  · unfold VchanInterface.Carries
    rw [(horder _).1, (horder _).2]
    exact Stream.congr (hs.carries _)
      (vchWriteCopy_other hs.orders hne hord hbuf hidx (by omega))

theorem VchRun.Ok.readCopy {idx n : Nat} (hs : s.Ok minRs minWs)
    (hreceiver : s.receiver fromServer = some h)
    (hreader : (s.links fromServer).reader = .loaded idx n) :
    (s.update fromServer s.ring { s.links fromServer with
      reader := .copied (vchReadCopy h s.ring idx n) }).Ok minRs minWs := by
  obtain ⟨-, hord, hbuf⟩ := hs.receiver hreceiver
  have hcarries : Stream _ _ _ _ _ _ _ _ := hs.carries fromServer
  rw [hreader] at hcarries
  rw [vchReadCopy_area idx n hord hbuf]
  exact hs.update rfl rfl hcarries.sliceTwoOut (hs.carries _)

theorem VchRun.Ok.move {shared : RingShared} {link : Link UInt8} (hs : s.Ok minRs minWs)
    (hcarries : Stream (2 ^ s.ring.order (streamSide fromServer))
      (s.ring.area (streamSide fromServer)) shared.cons shared.prod link.writer link.reader
      link.sent link.received) (rw : UInt8) (rc : Int) :
    (s.update fromServer
      (vchNotify h (s.ring.setShared (streamSide fromServer) shared) rw rc).2 link).Ok
        minRs minWs := by
  have hsame := vchNotify_sameRings h (s.ring.setShared (streamSide fromServer) shared) rw rc
  obtain ⟨hlo, hro⟩ := s.ring.setShared_orders (streamSide fromServer) shared
  obtain ⟨hown, hother⟩ := VchanInterface.Carries.setShared hcarries (hs.carries _)
  exact hs.update (hsame.leftOrder.trans hlo) (hsame.rightOrder.trans hro) (hsame.carries hown)
    (hsame.carries hother)

theorem VchRun.Ok.writeEnd {data : Bytes} (hs : s.Ok minRs minWs)
    (hsender : s.sender fromServer = some h)
    (hwriter : (s.links fromServer).writer = .copied data) (rc : Int) :
    (s.update fromServer (vchWriteEnd h s.ring data.length rc).2 { s.links fromServer with
      writer := .idle, sent := (s.links fromServer).sent ++ data }).Ok minRs minWs := by
  obtain ⟨hside, -, -⟩ := hs.sender hsender
  have hcarries : Stream _ _ _ _ _ _ _ _ := hs.carries fromServer
  rw [hwriter] at hcarries
  simp only [vchWriteEnd, hside]
  exact hs.move hcarries.publishWrite _ rc

theorem VchRun.Ok.readEnd {data : Bytes} (hs : s.Ok minRs minWs)
    (hreceiver : s.receiver fromServer = some h)
    (hreader : (s.links fromServer).reader = .copied data) (rc : Int) :
    (s.update fromServer (vchReadEnd h s.ring data.length rc).2 { s.links fromServer with
      reader := .idle, received := (s.links fromServer).received ++ data }).Ok minRs minWs := by
  obtain ⟨hside, -, -⟩ := hs.receiver hreceiver
  have hcarries : Stream _ _ _ _ _ _ _ _ := hs.carries fromServer
  rw [hreader] at hcarries
  simp only [vchReadEnd, hside]
  exact hs.move hcarries.publishRead _ rc

theorem VchRun.Ok.connect {pathMax : Nat} {calls : VchConnectCalls} {path : CString}
    {result : Except VchErr VchHandle} {ring : VchanInterface} (hs : s.Ok minRs minWs)
    (hconnect : vchConnect pathMax calls path s.ring = (result, ring)) {client : Option VchHandle}
    (hclient : client = s.client ∨ ∃ h, client = some h ∧ result = .ok h) :
    ({ s with ring := ring, client := client } : VchRun).Ok minRs minWs := by
  obtain ⟨hsame, hhandle⟩ := vchConnect_spec hconnect
  have hok := hs.sameRings hsame
  refine ⟨hok.orders, hok.server, fun h hh => ?_, hok.sizes, hok.carries⟩
  rcases hclient with rfl | ⟨h', rfl, hresult⟩
  · exact hok.client h hh
  · cases hh
    rw [hhandle h hresult, clientHandle, clientHandle, hsame.leftOrder, hsame.rightOrder]

end Steps

theorem VchRun.Ok.step {minRs minWs : Nat} {s s' : VchRun} {action : VchAction}
    (hs : s.Ok minRs minWs) (hstep : s.step action = some s') : s'.Ok minRs minWs := by
  cases action with
  | connect pathMax calls path =>
    simp only [VchRun.step] at hstep
    split at hstep
    · cases hstep
    · case h_2 e ring _ hconnect =>
      cases hstep
      exact hs.connect hconnect (.inl rfl)
    · case h_3 h ring _ hconnect =>
      cases hstep
      exact hs.connect hconnect (.inr ⟨h, rfl, rfl⟩)
  | writeLoad fromServer buf =>
    simp only [VchRun.step] at hstep
    split at hstep
    · case h_1 hsender hwriter =>
      cases hstep
      exact hs.writeLoad hsender buf
    · cases hstep
  | writeCopy fromServer =>
    simp only [VchRun.step] at hstep
    split at hstep
    · case h_1 hsender hwriter =>
      cases hstep
      exact hs.writeCopy hsender hwriter
    · cases hstep
  | writeEnd fromServer rc =>
    simp only [VchRun.step] at hstep
    split at hstep
    · case h_1 hsender hwriter =>
      cases hstep
      exact hs.writeEnd hsender hwriter rc
    · cases hstep
  | readLoad fromServer buf size =>
    simp only [VchRun.step] at hstep
    split at hstep
    · case h_1 hreceiver hreader =>
      cases hstep
      exact hs.readLoad hreceiver buf size
    · cases hstep
  | readCopy fromServer =>
    simp only [VchRun.step] at hstep
    split at hstep
    · case h_1 hreceiver hreader =>
      cases hstep
      exact hs.readCopy hreceiver hreader
    · cases hstep
  | readEnd fromServer rc =>
    simp only [VchRun.step] at hstep
    split at hstep
    · case h_1 hreceiver hreader =>
      cases hstep
      exact hs.readEnd hreceiver hreader rc
    · cases hstep

theorem vchOpen_ok {pathMax minRs minWs : Nat} {calls : VchOpenCalls} {path : CString}
    {server : VchHandle} {ring : VchanInterface}
    (h : vchOpen pathMax calls path minRs minWs = .ok (server, ring)) :
    (VchRun.start server ring).Ok minRs minWs := by
  obtain ⟨hserver, horders, hrs, hws, hleft, hright⟩ := vchOpen_spec h
  refine ⟨horders, hserver, by simp [VchRun.start], ⟨hrs, hws⟩, fun fromServer => ?_⟩
  have hsize : 2 ^ ring.order (streamSide fromServer) ∣ 2 ^ 32 ∧
      2 ^ ring.order (streamSide fromServer) < 2 ^ 32 := by
    rcases horders with ⟨hl, hr⟩ | ⟨hl, hr⟩ <;> cases fromServer <;>
      simp [streamSide, VchanInterface.order, hl, hr]
  apply Stream.start hsize
  cases fromServer <;> simp [VchRun.start, streamSide, VchanInterface.shared, hleft, hright]

structure VchLayout (minRs minWs : Nat) (server client : VchHandle) : Prop where
  serverWrites : server.write = client.read ∧ server.writeCbuf = client.readCbuf ∧
    server.writeOrd = client.readOrd
  clientWrites : client.write = server.read ∧ client.writeCbuf = server.readCbuf ∧
    client.writeOrd = server.readOrd
  differ : server.read ≠ server.write
  inPage : server.readCbuf + 2 ^ server.readOrd ≤ xenPageSize ∧
    server.writeCbuf + 2 ^ server.writeOrd ≤ xenPageSize
  header : vchanHeaderSize ≤ server.readCbuf ∧ vchanHeaderSize ≤ server.writeCbuf
  disjoint : server.readCbuf + 2 ^ server.readOrd ≤ server.writeCbuf ∨
    server.writeCbuf + 2 ^ server.writeOrd ≤ server.readCbuf
  sizes : minRs ≤ 2 ^ server.readOrd ∧ minWs ≤ 2 ^ server.writeOrd

theorem VchRun.Ok.layout {minRs minWs : Nat} {s : VchRun} {client : VchHandle}
    (hs : s.Ok minRs minWs) (hclient : s.client = some client) :
    VchLayout minRs minWs s.server client := by
  have hsizes := hs.sizes
  rw [hs.server, hs.client client hclient]
  rcases hs.orders with ⟨hl, hr⟩ | ⟨hl, hr⟩ <;>
    · simp only [serverHandle, clientHandle, hl, hr] at hsizes ⊢
      exact ⟨⟨rfl, rfl, rfl⟩, ⟨rfl, rfl, rfl⟩, by decide, by decide, by decide, by decide, hsizes⟩

/-- An opened and connected channel, after any interleaving of what its two ends do: the ends
agree on a sound layout, and in each direction the bytes read are the first of the bytes
written, the others lying in the ring. -/
theorem vchan_fifo {pathMax minRs minWs : Nat} {calls : VchOpenCalls} {path : CString}
    {server client : VchHandle} {ring : VchanInterface}
    (hopen : vchOpen pathMax calls path minRs minWs = .ok (server, ring))
    {actions : List VchAction} {s : VchRun}
    (hrun : Machine.run VchRun.step (VchRun.start server ring) actions = some s)
    (hclient : s.client = some client) :
    VchLayout minRs minWs s.server client ∧
      ∀ (fromServer : Bool) (h : VchHandle), s.sender fromServer = some h →
        ((s.ring.shared h.write).prod - (s.ring.shared h.write).cons).toNat ≤ 2 ^ h.writeOrd ∧
        (s.links fromServer).received <+: (s.links fromServer).sent ∧
        (s.links fromServer).sent.length = (s.links fromServer).received.length +
          ((s.ring.shared h.write).prod - (s.ring.shared h.write).cons).toNat := by
  have hs : s.Ok minRs minWs :=
    Machine.run_keeps (fun _ _ _ hok hstep => VchRun.Ok.step hok hstep) (vchOpen_ok hopen) hrun
  refine ⟨hs.layout hclient, fun fromServer h hsender => ?_⟩
  obtain ⟨hside, hord, -⟩ := hs.sender hsender
  have hcarries := hs.carries fromServer
  rw [hside, hord]
  exact ⟨hcarries.bound, hcarries.unread⟩

/-- The server sends two bytes before the client is there, and the client reads one of them
while the server is in its next call. -/
theorem vchan_fifo_early :
    let calls : VchOpenCalls := ⟨0, true, 5, 0, 8, 0, 0, 0⟩
    let connectCalls : VchConnectCalls := ⟨0, 0, 8, 0, 5, 6, true, 0, 0, 0⟩
    let actions : List VchAction :=
      [.writeLoad true (some [1, 2]), .writeCopy true, .writeEnd true 0,
        .connect 32 connectCalls [], .readLoad true true 1, .writeLoad true (some [3]),
        .readCopy true, .writeCopy true, .readEnd true 0]
    ∃ server ring s client, vchOpen 32 calls [] 100 2000 = .ok (server, ring) ∧
      Machine.run VchRun.step (VchRun.start server ring) actions = some s ∧
      s.client = some client ∧ VchLayout 100 2000 s.server client ∧
      (s.links true).received = [1] ∧ (s.links true).received <+: (s.links true).sent := by
  intro calls connectCalls actions
  let server : VchHandle := ⟨true, 10, 11, 2 ^ 10, 2 ^ 11, .left, .right⟩
  let ring : VchanInterface :=
    ⟨⟨0, 0⟩, ⟨0, 0⟩, 10, 11, 2, 1, vchanNotifyWrite, 0, fun _ => 0⟩
  have hopen : vchOpen 32 calls [] 100 2000 = .ok (server, ring) := rfl
  have hshape : (Machine.run VchRun.step (VchRun.start server ring) actions).map
      (fun s => (s.client, (s.links true).received)) = some (some (clientHandle ring), [1]) := by
    decide +kernel
  obtain ⟨s, hrun, hs⟩ := Option.map_eq_some_iff.mp hshape
  obtain ⟨hclient, hreceived⟩ := Prod.mk.inj hs
  obtain ⟨hlayout, hfifo⟩ := vchan_fifo hopen hrun hclient
  exact ⟨server, ring, s, clientHandle ring, hopen, hrun, hclient, hlayout, hreceived,
    (hfifo true s.server rfl).2.1⟩

end Xenlib
