import Xenlib.Requests

/-!
What becomes of the messages of a guest. Well-formed requests are reassembled whatever way
their bytes arrive. Of the messages that are not, the reader copes with one of unknown type
only at the end of the stream, and with one that is too big never.
-/

set_option autoImplicit false

namespace Xenlib

open Wp Machine

/-- The requests dispatched so far, against the messages sent. -/
structure Reassembled (msgs : List WireMessage) (f : FeedState) : Prop where
  inOrder : f.thread.xenstore.requests <+: msgs.map WireMessage.request
  /-- Once every byte was read, every message was dispatched. -/
  complete : f.unread = [] → f.thread.pc.Outside →
    f.thread.xenstore.requests = msgs.map WireMessage.request
  /-- Between messages there is no input buffer. -/
  between : ∀ done todo, msgs = done ++ todo → f.unread = wire todo → f.thread.pc.Outside →
    f.thread.xenstore.input = none
  /-- The steps that read the ring do not fault. -/
  reads : f.thread.pc = .header ∨ f.thread.pc = .payload → false ∉ f.shared.allocs →
    ∃ r, threadStep f.thread f.shared = .ok r

theorem wire_append (msgs msgs' : List WireMessage) :
    wire (msgs ++ msgs') = wire msgs ++ wire msgs' := List.flatMap_append

theorem wire_length_suffix {msgs msgs' : List WireMessage} (h : msgs <:+ msgs') :
    (wire msgs).length ≤ (wire msgs').length := by
  obtain ⟨pre, rfl⟩ := h
  rw [wire_append, List.length_append]
  omega

/-- Inside a message the unread bytes are not a whole number of messages. -/
theorem unread_within {done todo done' todo' : List WireMessage} {m : WireMessage}
    {buf unread : Bytes} (hmsgs : done ++ m :: todo = done' ++ todo')
    (hrest : buf ++ unread = m.bytes ++ wire todo) (hpos : 0 < buf.length)
    (hlt : buf.length < m.bytes.length) : unread ≠ wire todo' := by
  intro hu
  have hlen := congrArg List.length hrest
  rw [List.length_append, List.length_append, hu] at hlen
  have hcons : (wire (m :: todo)).length = m.bytes.length + (wire todo).length := by
    rw [show m :: todo = [m] ++ todo from rfl, wire_append, List.length_append]
    simp [wire]
  have hs : m :: todo <:+ done' ++ todo' := ⟨done, hmsgs⟩
  -- both lists of messages are ends of the stream, so one is an end of the other
  rcases List.suffix_or_suffix_of_suffix hs (List.suffix_append done' todo') with h | h
  · have hle := wire_length_suffix h
    omega
  · rcases List.suffix_cons_iff.mp h with h | h
    · rw [h] at hlen
      omega
    · have hle := wire_length_suffix h
      omega

theorem FeedInv.reassembled {msgs : List WireMessage} {f : FeedState} (h : FeedInv msgs f)
    (hknown : ∀ m ∈ msgs, messageHandle m.type ≠ none) : Reassembled msgs f := by
  refine ⟨h.inOrder, fun hnil hpc => ?_, fun done' todo' hm' hu' hpc => ?_, h.reads⟩
  · rcases h.progress with ⟨done, todo, hm, hr, hi, hu, hp⟩ |
      ⟨done, m, todo, inp, hm, hr, hi, hpart, hu, hp⟩ | ⟨⟨m, hmem, hnone⟩, hr, hu, hp⟩
    · cases todo with
      | nil => rw [hr, hm, List.append_nil]
      | cons m todo =>
        have hlen := congrArg List.length (hnil.symm.trans hu)
        have hml := m.bytes_length
        simp only [wire, List.flatMap_cons, List.length_append, List.length_nil, hml, headerSize]
          at hlen
        omega
    · obtain ⟨hpos, hlt⟩ := hp.outside hpc
      rw [hpart.used] at hpos hlt
      have hmsgs : done ++ m :: todo = msgs ++ [] := by
        rw [List.append_nil, hm]
      exact absurd hnil (unread_within hmsgs hu hpos hlt)
    · exact hr
  · rcases h.progress with ⟨done, todo, hm, hr, hi, hu, hp⟩ |
      ⟨done, m, todo, inp, hm, hr, hi, hpart, hu, hp⟩ | ⟨⟨m, hmem, hnone⟩, hr, hu, hp⟩
    · exact hi
    · obtain ⟨hpos, hlt⟩ := hp.outside hpc
      rw [hpart.used] at hpos hlt
      exact absurd hu' (unread_within (hm.symm.trans hm') hu hpos hlt)
    · exact absurd hnone (hknown m hmem)

/-- Requests are reassembled for every way their bytes arrive. -/
theorem run_reassembled {msgs : List WireMessage} {s : Shared} {domid : UInt32}
    {domint : XenstoreDomainInterface} {slot : Nat} {stackWord : Nat → UInt32} {pending : Bytes}
    {as : List FeedAction} {f : FeedState}
    (hknown : ∀ m ∈ msgs, messageHandle m.type ≠ none)
    (hsmall : ∀ m ∈ msgs, m.payload.length ≤ xenstorePayloadMax)
    (hidx : domint.requestBytes ≤ xenstoreRingSize)
    (hstream : domint.requests ++ pending = wire msgs)
    (hvalid : Along FeedState.step FeedState.KeepsClient
      (.start s domid domint slot stackWord pending) as)
    (hrun : run FeedState.step (.start s domid domint slot stackWord pending) as = some f) :
    Reassembled msgs f := by
  have hread : Readable msgs := ⟨hsmall, fun m hm => hknown m (List.dropLast_subset msgs hm)⟩
  have hinv := FeedInv.run hread (.start hidx hstream s domid slot stackWord) hvalid hrun
  exact hinv.reassembled hknown

instance (f : FeedState) (a : FeedAction) : Decidable (f.KeepsClient a) :=
  match h : f.step a with
  | none => isTrue fun f' hf' => by rw [h] at hf'; cases hf'
  | some f' => decidable_of_iff (f'.thread.xenstore.releases = 0)
      ⟨fun hr f'' hf'' => by rw [h] at hf''; cases hf''; exact hr, fun hk => hk f' h⟩

def WireMessage.bare (type reqId : UInt32) : WireMessage := ⟨type, reqId, 0, [], by decide⟩

/-- The client of domain 1 with an empty ring, both indexes at `pos`. -/
def FeedState.fresh (pos : UInt32) (msgs : List WireMessage) : FeedState :=
  .start (.boot 16) 1 ⟨fun _ => 0, fun _ => 0, pos, pos, 0, 0⟩ 0 (fun _ => 0) (wire msgs)

/-- Two requests, the second with a payload. -/
def twoRequests : List WireMessage := [.bare 0 1, ⟨0, 2, 0, [120, 0], by decide⟩]

/-- The first header arrives in two pieces. -/
def twoRequestsRun : List FeedAction :=
  [.produce 10] ++ List.replicate 8 .thread ++ [.produce 100] ++ List.replicate 27 .thread

theorem run_reassembled_twoRequests : ∃ f,
    run FeedState.step (.fresh 4294967285 twoRequests) twoRequestsRun = some f ∧ f.unread = [] ∧
      f.thread.xenstore.requests = [⟨0, 1, []⟩, ⟨0, 2, [120, 0]⟩] ∧ Reassembled twoRequests f := by
  have hvals : (run FeedState.step (.fresh 4294967285 twoRequests) twoRequestsRun).map (fun f =>
      (f.unread, f.thread.xenstore.requests)) = some ([], [⟨0, 1, []⟩, ⟨0, 2, [120, 0]⟩]) := by
    decide +kernel
  obtain ⟨f, hrun, hf⟩ := Option.map_eq_some_iff.mp hvals
  rw [Prod.mk.injEq] at hf
  refine ⟨f, hrun, hf.1, hf.2, run_reassembled ?_ ?_ ?_ rfl ?_ hrun⟩
  · decide +kernel
  · decide +kernel
  · decide +kernel
  · decide +kernel

/-- The reader keeps step with the messages: outside of `handle_input` it has dispatched exactly
those that it has read to the end, and what it holds is the beginning of the next one. -/
structure InStep (msgs : List WireMessage) (f : FeedState) : Prop where
  inOrder : f.thread.xenstore.requests <+: msgs.map WireMessage.request
  reading : f.thread.pc.Outside → ∃ done todo part, msgs = done ++ todo ∧
    f.thread.xenstore.requests = done.map WireMessage.request ∧ part ++ f.unread = wire todo ∧
    (part ≠ [] → ∃ m rest inp, todo = m :: rest ∧ f.thread.xenstore.input = some inp ∧
      inp.buffer = part ∧ part.length < m.bytes.length)

theorem FeedInv.inStep {msgs : List WireMessage} {f : FeedState} (h : FeedInv msgs f) :
    InStep msgs f := by
  refine ⟨h.inOrder, fun hpc => ?_⟩
  rcases h.progress with ⟨done, todo, hm, hr, hi, hu, hp⟩ |
    ⟨done, m, todo, inp, hm, hr, hi, hpart, hu, hp⟩ | ⟨hlast, hr, hu, hp⟩
  · exact ⟨done, todo, [], hm, hr, hu, fun hne => absurd rfl hne⟩
  · refine ⟨done, m :: todo, inp.buffer, hm, hr, ?_, fun _ => ⟨m, todo, inp, rfl, hi, rfl, ?_⟩⟩
    · rw [hu]
      simp [wire]
    · rw [← hpart.used]
      exact (hp.outside hpc).2
  · refine ⟨msgs, [], [], (List.append_nil msgs).symm, hr, hu, fun hne => absurd rfl hne⟩

/-- As long as no payload is too big and no message but the last has an unknown type, the reader
keeps step with any stream. -/
theorem run_inStep {msgs : List WireMessage} {s : Shared} {domid : UInt32}
    {domint : XenstoreDomainInterface} {slot : Nat} {stackWord : Nat → UInt32} {pending : Bytes}
    {as : List FeedAction} {f : FeedState} (hread : Readable msgs)
    (hidx : domint.requestBytes ≤ xenstoreRingSize)
    (hstream : domint.requests ++ pending = wire msgs)
    (hvalid : Along FeedState.step FeedState.KeepsClient
      (.start s domid domint slot stackWord pending) as)
    (hrun : run FeedState.step (.start s domid domint slot stackWord pending) as = some f) :
    InStep msgs f :=
  (FeedInv.run hread (.start hidx hstream s domid slot stackWord) hvalid hrun).inStep

/-- A request, and a message of unknown type that ends the stream. -/
def unknownLast : List WireMessage := [.bare 0 1, .bare 100 9]

def unknownRun : List FeedAction := .produce 32 :: List.replicate 24 .thread

theorem run_inStep_unknownLast : ∃ f,
    run FeedState.step (.fresh 0 unknownLast) unknownRun = some f ∧
      f.thread.xenstore.requests = [⟨0, 1, []⟩, ⟨100, 9, []⟩] ∧ InStep unknownLast f := by
  have hvals : (run FeedState.step (.fresh 0 unknownLast) unknownRun).map (fun f =>
      f.thread.xenstore.requests) = some [⟨0, 1, []⟩, ⟨100, 9, []⟩] := by
    decide +kernel
  obtain ⟨f, hrun, hf⟩ := Option.map_eq_some_iff.mp hvals
  refine ⟨f, hrun, hf, run_inStep ⟨?_, ?_⟩ ?_ rfl ?_ hrun⟩
  · decide +kernel
  · decide +kernel
  · decide +kernel
  · decide +kernel

def unknownFirst : List WireMessage := [.bare 100 9, .bare 0 1]

/-- A write whose payload of 4097 zeros is one byte too long. -/
def oversized : List WireMessage :=
  [⟨11, 5, 0, List.replicate 4097 0, by rw [List.length_replicate]; decide⟩]

/-- A message of unknown type is dispatched again and again, and the request behind it never.
A payload that is too big is taken for headers: here its zeros become a control request. The
client is not invalidated in either run. -/
theorem badMessages_not_inStep :
    (∃ f, Along FeedState.step FeedState.KeepsClient (.fresh 0 unknownFirst) unknownRun ∧
      run FeedState.step (.fresh 0 unknownFirst) unknownRun = some f ∧
      f.thread.xenstore.requests = [⟨100, 9, []⟩, ⟨100, 9, []⟩] ∧ ¬ InStep unknownFirst f) ∧
    (∃ f, Along FeedState.step FeedState.KeepsClient (.fresh 0 oversized)
        (.produce 32 :: List.replicate 15 .thread) ∧
      run FeedState.step (.fresh 0 oversized) (.produce 32 :: List.replicate 15 .thread) = some f ∧
      f.thread.xenstore.requests = [⟨0, 0, []⟩] ∧ ¬ InStep oversized f) := by
  have hunknown : (run FeedState.step (.fresh 0 unknownFirst) unknownRun).map (fun f =>
      f.thread.xenstore.requests) = some [⟨100, 9, []⟩, ⟨100, 9, []⟩] := by
    decide +kernel
  have hbig : (run FeedState.step (.fresh 0 oversized)
      (.produce 32 :: List.replicate 15 .thread)).map (fun f =>
      f.thread.xenstore.requests) = some [⟨0, 0, []⟩] := by
    decide +kernel
  constructor
  · obtain ⟨f, hrun, hf⟩ := Option.map_eq_some_iff.mp hunknown
    refine ⟨f, by decide +kernel, hrun, hf, fun h => ?_⟩
    have hpre := h.inOrder
    rw [hf] at hpre
    revert hpre
    decide +kernel
  · obtain ⟨f, hrun, hf⟩ := Option.map_eq_some_iff.mp hbig
    refine ⟨f, by decide +kernel, hrun, hf, fun h => ?_⟩
    have hpre := h.inOrder
    rw [hf] at hpre
    revert hpre
    decide +kernel

end Xenlib
