import Mathlib.Data.Rat.Defs
import Mathlib.Algebra.Order.Ring.Rat
import Mathlib.Logic.Function.Basic
import Atsq.Lib.Queue
import Atsq.Lib.Run
import Atsq.Protocol.Parse

/-!
# `atsq.connection`: the event side of a connection

The event queue, the closed flag, and the tasks inside `wait_for_event`.

* `Feed`   the part of a connection that events go through; `published` and `removed` are history:
           what the receive loop published, and what left the queue and how;
* `publishEvent`, `shutdown`   the two producers;
* `waitForEvent`, `resumeWait`, `expireWait`, `cancelWait`   one consumer's task between two
           suspension points.

`Ledger` says where every published event is, `Waiters` that nobody sleeps for nothing; every step
keeps both.
-/

namespace Atsq
open Py

/-! ## data -/

/-- an element of the event queue; `queueClosed` is `_QUEUE_CLOSED` -/
inductive Item where
  | event (e : Event)
  | queueClosed
deriving DecidableEq

def Item.event? : Item → Option Event
  | .event e => some e
  | .queueClosed => none

/-- how an event left the queue -/
inductive Fate where
  | delivered
  | evicted
deriving DecidableEq

/-- how a `wait_for_event` call ends; `queueFull` would be the put-back of the sentinel -/
inductive WaitOutcome where
  | event (e : Event)
  | connectionClosed
  | queryTimeout
  | cancelled
  | queueFull
deriving DecidableEq

/-- where the task of a consumer is suspended -/
inductive WaitPc where
  | idle
  | getting (deadline : Option ℚ)
  | finished (o : WaitOutcome)

/-- `cancelReq` and `expired`: the task was cancelled, by its owner or by its timer, and did not
run since -/
structure Wait where
  pc : WaitPc := .idle
  cancelReq : Bool := false
  expired : Bool := false

def Wait.flagged (w : Wait) : Bool := w.cancelReq || w.expired

def Wait.free (w : Wait) : Bool :=
  match w.pc with
  | .getting _ => false
  | _ => true

structure Feed where
  closed : Bool := false
  eventQueue : Aio.Queue Item Nat
  waits : Nat → Wait := fun _ => {}
  published : List Event := []
  removed : List (Fate × Event) := []

namespace Feed

def queued (f : Feed) : List Event := f.eventQueue.items.filterMap Item.event?

def deliveredEvents (f : Feed) : List Event :=
  (f.removed.filter fun r => r.1 == Fate.delivered).map Prod.snd

/-! ## producers -/

/-- a put of the producer's loop; dropped events are on record -/
def evictingPut (f : Feed) (x : Item) : Feed :=
  let r := f.eventQueue.evictingPut x
  { f with
    eventQueue := r.2
    removed := f.removed ++ (r.1.filterMap Item.event?).map fun e => (Fate.evicted, e) }

/-- `_publish_event` -/
def publishEvent (f : Feed) (e : Event) : Feed :=
  { f.evictingPut (.event e) with published := f.published ++ [e] }

/-- `_publish_event_sentinel` -/
def publishEventSentinel (f : Feed) : Feed := f.evictingPut .queueClosed

/-- what `_shutdown` does here -/
def shutdown (f : Feed) : Feed :=
  if f.closed then f else { f with closed := true }.publishEventSentinel

/-! ## consumers -/

def setWait (f : Feed) (n : Nat) (w : Wait) : Feed :=
  { f with waits := Function.update f.waits n w }

def finishWait (f : Feed) (n : Nat) (o : WaitOutcome) : Feed := f.setWait n { pc := .finished o }

/-- the consumer has the item; the sentinel is put back -/
def takeItem (f : Feed) (n : Nat) : Item → Feed
  | .event e => { f with removed := f.removed ++ [(Fate.delivered, e)] }.finishWait n (.event e)
  | .queueClosed =>
    match f.eventQueue.putNowait .queueClosed with
    | some q => { f with eventQueue := q }.finishWait n .connectionClosed
    | none => f.finishWait n .queueFull

/-- `await self._event_queue.get()` up to its suspension or its end -/
def get (f : Feed) (n : Nat) (deadline : Option ℚ) : Feed :=
  match f.eventQueue.items with
  | [] => { f with eventQueue := f.eventQueue.park n }.setWait n { pc := .getting deadline }
  | x :: xs => { f with eventQueue := f.eventQueue.withItems xs }.takeItem n x

def waitForEvent (f : Feed) (n : Nat) (deadline : Option ℚ) : Option Feed :=
  if (f.waits n).free then
    if f.closed && f.eventQueue.items.isEmpty then some (f.finishWait n .connectionClosed)
    else some (f.get n deadline)
  else none

/-- the task runs on: cancelled, or woken by a put -/
def resumeWait (f : Feed) (n : Nat) : Option Feed :=
  match (f.waits n).pc with
  | .getting deadline =>
    if (f.waits n).flagged then
      some ({ f with eventQueue := f.eventQueue.giveUp n }.finishWait n
        (if (f.waits n).cancelReq then .cancelled else .queryTimeout))
    else if n ∈ f.eventQueue.woken then
      some ({ f with eventQueue := f.eventQueue.unpark n }.get n deadline)
    else none
  | _ => none

/-- the task is cancelled; a getter that was not woken yet is cancelled with it -/
def flagWait (f : Feed) (n : Nat) (w : Wait) : Feed :=
  { f with eventQueue := f.eventQueue.cancelGetter n }.setWait n w

def expireWait (f : Feed) (n : Nat) (now : ℚ) : Option Feed :=
  match (f.waits n).pc with
  | .getting (some deadline) =>
    if deadline ≤ now then some (f.flagWait n { f.waits n with expired := true }) else none
  | _ => none

def cancelWait (f : Feed) (n : Nat) : Option Feed :=
  match (f.waits n).pc with
  | .getting _ => some (f.flagWait n { f.waits n with cancelReq := true })
  | _ => none

/-- what can happen to a feed between two suspension points -/
inductive Act where
  | publish (e : Event)
  | shutdown
  | wait (n : Nat) (deadline : Option ℚ)
  | resume (n : Nat)
  | expire (n : Nat) (now : ℚ)
  | cancel (n : Nat)

/-- the receive loop publishes as long as the connection is open -/
def step (f : Feed) : Act → Option Feed
  | .publish e => if f.closed then none else some (f.publishEvent e)
  | .shutdown => if f.closed then none else some f.shutdown
  | .wait n deadline => f.waitForEvent n deadline
  | .resume n => f.resumeWait n
  | .expire n now => f.expireWait n now
  | .cancel n => f.cancelWait n

/-- the feed after a step, branch by branch -/
inductive Step (f : Feed) : Act → Feed → Prop where
  | publish (e : Event) : f.closed = false → Step f (.publish e) (f.publishEvent e)
  | shutdown : f.closed = false →
      Step f .shutdown { f with closed := true }.publishEventSentinel
  | waitClosed {n : Nat} {deadline : Option ℚ} : (f.waits n).free = true → f.closed = true →
      f.eventQueue.items = [] → Step f (.wait n deadline) (f.finishWait n .connectionClosed)
  | waitGet {n : Nat} {deadline : Option ℚ} : (f.waits n).free = true →
      Step f (.wait n deadline) (f.get n deadline)
  | giveUp {n : Nat} {deadline : Option ℚ} {o : WaitOutcome} :
      (f.waits n).pc = .getting deadline → (f.waits n).flagged = true →
      o = (if (f.waits n).cancelReq then .cancelled else .queryTimeout) →
      Step f (.resume n) ({ f with eventQueue := f.eventQueue.giveUp n }.finishWait n o)
  | wake {n : Nat} {deadline : Option ℚ} : (f.waits n).pc = .getting deadline →
      (f.waits n).flagged = false → n ∈ f.eventQueue.woken →
      Step f (.resume n) ({ f with eventQueue := f.eventQueue.unpark n }.get n deadline)
  | expire {n : Nat} {now deadline : ℚ} : (f.waits n).pc = .getting (some deadline) →
      deadline ≤ now → Step f (.expire n now) (f.flagWait n { f.waits n with expired := true })
  | cancel {n : Nat} {deadline : Option ℚ} : (f.waits n).pc = .getting deadline →
      Step f (.cancel n) (f.flagWait n { f.waits n with cancelReq := true })

theorem step_cases {f f' : Feed} {a : Act} (hs : f.step a = some f') : Step f a f' := by
  cases a with
  | publish e =>
    simp only [step] at hs
    split at hs
    · cases hs
    · rename_i hc
      cases hs
      exact .publish e (Bool.eq_false_iff.mpr hc)
  | shutdown =>
    simp only [step] at hs
    split at hs
    · cases hs
    · rename_i hc
      cases hs
      unfold Feed.shutdown
      rw [if_neg hc]
      exact .shutdown (Bool.eq_false_iff.mpr hc)
  | wait n deadline =>
    simp only [step, waitForEvent] at hs
    split at hs
    · rename_i hfree
      split at hs
      · rename_i hc
        cases hs
        rw [Bool.and_eq_true] at hc
        exact .waitClosed hfree hc.1 (List.isEmpty_iff.mp hc.2)
      · cases hs
        exact .waitGet hfree
    · cases hs
  | resume n =>
    simp only [step, resumeWait] at hs
    split at hs
    · rename_i deadline hpc
      split at hs
      · rename_i hfl
        cases hs
        exact .giveUp hpc hfl rfl
      · rename_i hfl
        split at hs
        · rename_i hw
          cases hs
          exact .wake hpc (Bool.eq_false_iff.mpr hfl) hw
        · cases hs
    · cases hs
  | expire n now =>
    simp only [step, expireWait] at hs
    split at hs
    · rename_i deadline hpc
      split at hs
      · rename_i hle
        cases hs
        exact .expire hpc hle
      · cases hs
    · cases hs
  | cancel n =>
    simp only [step, cancelWait] at hs
    split at hs
    · rename_i deadline hpc
      cases hs
      exact .cancel hpc
    · cases hs

end Feed
end Atsq
