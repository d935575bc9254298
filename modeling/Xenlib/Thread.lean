import Xenlib.Handlers

/-!
The thread that serves one guest, `xenstore_evt_thrd`, one step for each place where the
guest or another thread can come in between. Waiting on the semaphore is left out: a thread
that may go on at any time has all the runs of one that waits.
-/

set_option autoImplicit false

namespace Xenlib

inductive Pc where
  /-- The test of `thrd_stop` at the head of the loop. -/
  | loopTest
  /-- The deferred reply to XS_TRANSACTION_END. -/
  | endTransaction
  /-- `process_pending_watch_events`. -/
  | events
  /-- The look at both rings before waiting. -/
  | idle
  | readTest
  /-- `handle_input`, in the three pieces that read the ring or run a handler. -/
  | header | payload | process
  | writeTest
  | output
  /-- `cleanup_domain_watches` after the loop. -/
  | cleanup
  | dead
  deriving DecidableEq, Repr

structure Thread where
  pc : Pc
  xenstore : Xenstore

def sendTransactionEnd (xenstore : Xenstore) : SrvM Xenstore := do
  if xenstore.pendingStopTransaction then
    let xenstore ← sendReply xenstore xenstore.stopTransactionId .transactionEnd []
    pure { xenstore with stopTransactionId := 0, pendingStopTransaction := false }
  else pure xenstore

def threadStep (t : Thread) : SrvM Thread := do
  let xenstore := t.xenstore
  match t.pc with
  | .loopTest => pure ⟨if xenstore.thrdStop then .cleanup else .endTransaction, xenstore⟩
  | .endTransaction => pure ⟨.events, ← sendTransactionEnd xenstore⟩
  | .events =>
    if xenstore.runningTransaction = 0 then pure ⟨.idle, ← processPendingWatchEvents xenstore⟩
    else pure ⟨.idle, xenstore⟩
  | .idle =>
    if ← Wp.lift (canRead xenstore) then pure ⟨.readTest, xenstore⟩
    else
      let _ ← Wp.lift (canWrite xenstore)
      pure ⟨.readTest, xenstore⟩
  | .readTest => pure ⟨if ← Wp.lift (canRead xenstore) then .header else .writeTest, xenstore⟩
  | .header =>
    let (xenstore, more) ← inputHeader xenstore
    pure ⟨if more then .payload else .writeTest, xenstore⟩
  | .payload =>
    let (xenstore, full) ← inputPayload xenstore
    pure ⟨if full then .process else .writeTest, xenstore⟩
  | .process => pure ⟨.writeTest, ← processMessage xenstore⟩
  | .writeTest => pure ⟨if ← Wp.lift (canWrite xenstore) then .output else .loopTest, xenstore⟩
  | .output => pure ⟨.writeTest, ← handleOutput xenstore⟩
  | .cleanup =>
    cleanupDomainWatches xenstore.domid
    pure ⟨.dead, xenstore⟩
  | .dead => pure t

/-- At most `n` steps, up to the test of the output, when nothing comes in between. -/
def stepsToWriteTest : Nat → Thread → SrvM Thread
  | 0, t => pure t
  | n + 1, t => if t.pc = .writeTest then pure t else threadStep t >>= stepsToWriteTest n

/-- The three pieces make up `handle_input`. -/
theorem handleInput_steps (xenstore : Xenstore) :
    stepsToWriteTest 3 ⟨.header, xenstore⟩ =
      handleInput xenstore >>= fun xenstore => pure ⟨.writeTest, xenstore⟩ := by
  simp only [stepsToWriteTest, reduceCtorEq, if_false, threadStep, handleInput, bind_assoc,
    pure_bind]
  refine bind_congr fun ⟨xenstore, more⟩ => ?_
  cases more with
  | false => simp
  | true =>
    simp only [if_true, reduceCtorEq, if_false, bind_assoc, pure_bind]
    refine bind_congr fun ⟨xenstore, full⟩ => ?_
    cases full with
    | false => simp
    | true => simp

end Xenlib
