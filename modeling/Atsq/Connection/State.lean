import Atsq.Connection.Feed
import Atsq.Protocol.Render
import Atsq.Transport

/-!
# `atsq.connection`: the state of a `RawConnection` and its methods

The methods are cut at their suspension points: each definition is what one task does from one
`await` that suspends to the next, as a function on the state.

* `Conn`      the attributes of the connection, its transport, its tasks, the clock, and history;
* `Exec`, `Closer`, `Wait`   where a task inside `exec`, `close` or `wait_for_event` is suspended;
* `shutdown`, `close`, `execLine`, `complete`, `recvLine`, `keepaliveLoop`, …   the methods.

A cancelled task carries `cancelReq` until it runs, a task cancelled by its own timer `expired`; the
outer cancellation wins, as in `asyncio.timeout`.  Times are rational seconds.
-/

namespace Atsq
open Py

/-! ## configuration and peer -/

inductive Dialect where
  | ts3
  | ts6
  | auto
deriving DecidableEq

/-- `QUIRKS[…].greeting_lines`, the same for both generations -/
def greetingLines : Nat := 2

/-- `_TS3_WELCOME_PREFIX` -/
def ts3WelcomePrefix : Bytes := ascii "Welcome to the TeamSpeak 3 "

def sniffDialect (greeting : List Bytes) : Dialect :=
  if greeting.any ts3WelcomePrefix.isPrefixOf then .ts3 else .ts6

structure Config where
  dialect : Dialect := .auto
  commandTimeout : ℚ := 10
  keepaliveInterval : ℚ := 240
  eventQueueSize : Int := 1024
  floodRetries : Int := 2

/-- what `drain` after a write does: it returns, suspends, raises one of the errors that `send_line`
turns into `ConnectionClosedError`, or raises any other `Exception` -/
inductive Drain where
  | done
  | suspends
  | fails
  | raises
deriving DecidableEq

/-- the peer's part in one segment: the drain, and whether `wait_closed` suspends -/
structure Io where
  drain : Drain := .done
  waits : Bool := false

/-! ## tasks -/

/-- who calls `exec`: a user's task or the keepalive task -/
inductive Caller where
  | task (n : Nat)
  | keepalive
deriving DecidableEq

inductive Future where
  | pending
  | result (data : List Bytes) (error : ErrorLine)
  | exception
  | cancelled
deriving DecidableEq

inductive Outcome where
  | rows (rows : List Row)
  | queryError (e : QueryError)
  | queryTimeout
  | connectionClosed
  | cancelled
  | renderError (e : RenderError)
  /-- the exception of `drain` -/
  | sendError
  | assertionError

/-- where a task inside `close` is suspended: in the drain of `quit`, which has a timer, or in
`wait_closed` -/
inductive ClosePc where
  | quitting (deadline : ℚ)
  | releasing

inductive CloseResult where
  | suspended (pc : ClosePc)
  | returned
  | cancelled

/-- where a task inside `exec` is suspended; `closing` is the `close` of a timed out command -/
inductive ExecPc where
  | idle
  | locking
  | sending
  | awaiting (deadline : ℚ)
  | sleeping (wake : ℚ)
  | closing (pc : ClosePc)
  | finished (o : Outcome)

/-- inside the `try` that owns `_pending` -/
def ExecPc.critical : ExecPc → Bool
  | .sending | .awaiting _ | .closing _ => true
  | _ => false

def ExecPc.free : ExecPc → Bool
  | .idle | .finished _ => true
  | _ => false

/-- `handed` is history: the call has handed its line to the transport at least once -/
structure Exec where
  pc : ExecPc := .idle
  line : Bytes := []
  attempt : Nat := 0
  future : Future := .pending
  handed : Bool := false
  cancelReq : Bool := false
  expired : Bool := false

/-- a cancelled task cancels the pending future it awaits -/
def Exec.interrupt (e : Exec) : Exec :=
  match e.pc, e.future with
  | .awaiting _, .pending => { e with future := .cancelled }
  | _, _ => e

def Exec.cancel (e : Exec) : Exec := { e.interrupt with cancelReq := true }

/-- the timer of `asyncio.timeout` cancels the task -/
def Exec.expire (e : Exec) : Exec := { e.interrupt with expired := true }

theorem Exec.cancel_pc (e : Exec) : e.cancel.pc = e.pc := by
  unfold Exec.cancel Exec.interrupt
  split <;> rfl
theorem Exec.cancel_handed (e : Exec) : e.cancel.handed = e.handed := by
  unfold Exec.cancel Exec.interrupt
  split <;> rfl
theorem Exec.expire_cancelReq (e : Exec) : e.expire.cancelReq = e.cancelReq := by
  unfold Exec.expire Exec.interrupt
  split <;> rfl
theorem Exec.expire_handed (e : Exec) : e.expire.handed = e.handed := by
  unfold Exec.expire Exec.interrupt
  split <;> rfl
theorem Exec.expire_pc (e : Exec) : e.expire.pc = e.pc := by
  unfold Exec.expire Exec.interrupt
  split <;> rfl

inductive CloserPc where
  | idle
  | closing (pc : ClosePc)
  | returned
  | cancelled

structure Closer where
  pc : CloserPc := .idle
  cancelReq : Bool := false
  expired : Bool := false

def Closer.free (c : Closer) : Bool :=
  match c.pc with
  | .closing _ => false
  | _ => true

inductive RecvTask where
  | running
  | cancelling
  | ended
deriving DecidableEq

/-- `task.cancel()` -/
def RecvTask.cancel : RecvTask → RecvTask
  | .running => .cancelling
  | t => t

/-- `executing` is the keepalive loop inside its `exec` -/
inductive KeepaliveTask where
  | absent
  | ready
  | sleeping (wake : ℚ)
  | executing
  | ended

/-! ## the connection -/

/-- a command line handed to the transport: whose it is, how many lines had been received and how
many command lines sent at that moment -/
structure Sent where
  caller : Caller
  line : Bytes
  mark : Nat
  index : Nat
deriving DecidableEq

/-- `sent`, `quits`, `received` and `closeReturned` are history -/
structure Conn extends Feed where
  pending : Option Caller := none
  cmdLock : Option Caller := none
  dataBuffer : List Bytes := []
  greeting : List Bytes := []
  dialect : Dialect := .auto
  lastActivity : ℚ := 0
  recvTask : RecvTask := .running
  keepaliveTask : KeepaliveTask := .absent
  transport : SshTransport := {}
  execs : Caller → Exec := fun _ => {}
  closers : Nat → Closer := fun _ => {}
  now : ℚ := 0
  sent : List Sent := []
  quits : Nat := 0
  received : List Bytes := []
  closeReturned : Bool := false

namespace Conn

/-- the connection when `start` returns, `greeting` being the lines it read -/
def started (cfg : Config) (greeting : List Bytes) : Conn :=
  { eventQueue := { maxsize := cfg.eventQueueSize }
    greeting := greeting
    dialect := if cfg.dialect = .auto then sniffDialect greeting else cfg.dialect
    keepaliveTask := if 0 < cfg.keepaliveInterval then .ready else .absent }

def returned (s : Conn) (c : Caller) : Option (List Row) :=
  match (s.execs c).pc with
  | .finished (.rows rows) => some rows
  | _ => none

theorem pc_of_returned {s : Conn} {c : Caller} {rows : List Row} (h : s.returned c = some rows) :
    (s.execs c).pc = .finished (.rows rows) := by
  unfold returned at h
  split at h <;> cases h
  assumption

/-! ## small steps -/

def setExec (s : Conn) (c : Caller) (e : Exec) : Conn :=
  { s with execs := Function.update s.execs c e }

def finish (s : Conn) (c : Caller) (o : Outcome) : Conn :=
  s.setExec c { s.execs c with pc := .finished o }

/-- `_touch` -/
def touch (s : Conn) : Conn := { s with lastActivity := s.now }

/-- the `finally` of `_exec_line`, and the end of `async with self._cmd_lock` -/
def leave (s : Conn) : Conn := { s with pending := none, cmdLock := none }

/-- a write or drain that fails marks the transport closed -/
def sendFailed (s : Conn) : Conn := { s with transport := s.transport.sendFailed }

/-- `task.cancel()` -/
def cancelExec (s : Conn) (c : Caller) : Conn := s.setExec c (s.execs c).cancel

def cancelKeepalive (s : Conn) : Conn :=
  match s.keepaliveTask with
  | .absent | .ended => s
  | _ => s.cancelExec .keepalive

def cancelRecv (s : Conn) : Conn := { s with recvTask := s.recvTask.cancel }

/-- `if self._pending is not None and not self._pending.done()`: the future is set -/
def settle (s : Conn) (f : Future) : Conn :=
  match s.pending with
  | some c =>
    match (s.execs c).future with
    | .pending => s.setExec c { s.execs c with future := f }
    | _ => s
  | none => s

/-- `self._pending.set_exception(…)` -/
def failPending (s : Conn) : Conn := s.settle .exception

/-- `_shutdown` -/
def shutdown (s : Conn) : Conn :=
  if s.closed then s
  else cancelKeepalive { s.failPending with toFeed := s.toFeed.shutdown }

/-! ## `close` -/

/-- `await self._transport.close()` -/
def closeTransport (s : Conn) (io : Io) : Conn × CloseResult :=
  if s.transport.closed then (s, .returned)
  else
    ({ s with transport := s.transport.close },
      if io.waits then .suspended .releasing else .returned)

/-- `quit`, under a timer and with errors suppressed, then the transport -/
def quit (s : Conn) (io : Io) : Conn × CloseResult :=
  match s.transport.sendLine (ascii "quit") with
  | none => s.closeTransport io
  | some t =>
    let s := { s with transport := t, quits := s.quits + 1 }
    match io.drain with
    | .suspends => (s, .suspended (.quitting (s.now + 2)))
    | .done | .raises => s.closeTransport io
    | .fails => s.sendFailed.closeTransport io

/-- `close` in the task `current`, up to its suspension or its end -/
def close (s : Conn) (current : Option Caller) (io : Io) : Conn × CloseResult :=
  if s.closed then (s, .returned)
  else
    let s := s.shutdown
    let s := if current = some .keepalive then s else s.cancelKeepalive
    let s := s.cancelRecv
    if s.transport.closed then s.closeTransport io else s.quit io

/-- a task suspended inside `close` runs on, `none` while it cannot -/
def resumeClose (s : Conn) (cancelReq expired : Bool) (io : Io) :
    ClosePc → Option (Conn × CloseResult)
  | .quitting _ =>
    if cancelReq then some (s, .cancelled)
    else if expired then some (s.closeTransport io)
    else
      match io.drain with
      | .done | .raises => some (s.closeTransport io)
      | .fails => some (s.sendFailed.closeTransport io)
      | .suspends => none
  | .releasing => if cancelReq then some (s, .cancelled) else some (s, .returned)

/-! ## `exec` -/

/-- the head of the loop over `range(flood_retries + 1)` -/
def startAttempt (cfg : Config) (s : Conn) (c : Caller) (attempt : Nat) : Conn :=
  if (attempt : Int) < cfg.floodRetries + 1 then
    s.setExec c { s.execs c with pc := .locking, attempt := attempt }
  else s.finish c .assertionError

/-- `exec` up to the lock -/
def startExec (cfg : Config) (s : Conn) (c : Caller) (line : Except RenderError Bytes) : Conn :=
  match line with
  | .error e => s.setExec c { pc := .finished (.renderError e) }
  | .ok line => startAttempt cfg (s.setExec c { line := line }) c 0

/-- the future has its result: `_exec_line` returns or raises, and `exec` retries or passes it on -/
def complete (cfg : Config) (s : Conn) (c : Caller) (data : List Bytes) (error : ErrorLine) :
    Conn :=
  let s := s.leave.touch
  if error.ok then s.finish c (.rows (parseDataBlock data))
  else
    let err := QueryError.create error.id error.msg error.extra
    if err.flood && (s.execs c).attempt != cfg.floodRetries then
      s.setExec c { s.execs c with pc := .sleeping (s.now + (err.retryAfter + 1 / 10)) }
    else s.finish c (.queryError err)

/-- `await future` under the command timer -/
def awaitFuture (cfg : Config) (s : Conn) (c : Caller) : Conn :=
  match (s.execs c).future with
  | .pending => s.setExec c { s.execs c with pc := .awaiting (s.now + cfg.commandTimeout) }
  | .result data error => s.complete cfg c data error
  | .exception => s.leave.finish c .connectionClosed
  | .cancelled => s.leave.finish c .cancelled

/-- what the task does after `send_line` -/
def sendDone (cfg : Config) (s : Conn) (c : Caller) : Drain → Conn
  | .suspends => s
  | .done => s.touch.awaitFuture cfg c
  | .fails => (s.sendFailed.leave).finish c .connectionClosed
  | .raises => s.leave.finish c .sendError

/-- the lock, a new future in the slot, and the line written to the transport `t` -/
def handOver (s : Conn) (c : Caller) (t : SshTransport) : Conn :=
  let x : Sent :=
    { caller := c, line := (s.execs c).line, mark := s.received.length, index := s.sent.length }
  { s with cmdLock := some c, pending := some c, transport := t, sent := s.sent ++ [x] }.setExec c
    { s.execs c with pc := .sending, future := .pending, handed := true, expired := false }

/-- `_exec_line` from the moment it has the lock -/
def execLine (cfg : Config) (s : Conn) (c : Caller) (drain : Drain) : Conn :=
  if s.closed then s.finish c .connectionClosed
  else
    match s.transport.sendLine (s.execs c).line with
    | none => s.finish c .connectionClosed
    | some t => sendDone cfg (s.handOver c t) c drain

/-- `except TimeoutError`: what follows the segment of `close` -/
def afterClose (s : Conn) (c : Caller) : CloseResult → Conn
  | .suspended pc => s.setExec c { s.execs c with pc := .closing pc, expired := false }
  | .returned => ({ s with closeReturned := true }.leave).finish c .queryTimeout
  | .cancelled => s.leave.finish c .cancelled

/-- a task suspended inside `exec` runs on, `none` while it cannot -/
def resume (cfg : Config) (s : Conn) (c : Caller) (io : Io) : Option Conn :=
  let e := s.execs c
  match e.pc with
  | .idle | .finished _ => none
  | .locking => if e.cancelReq then some (s.finish c .cancelled) else none
  | .sleeping wake =>
    if e.cancelReq then some (s.finish c .cancelled)
    else if wake ≤ s.now then some (s.startAttempt cfg c (e.attempt + 1))
    else none
  | .sending =>
    if e.cancelReq then some (s.leave.finish c .cancelled)
    else if io.drain = .suspends then none
    else some (s.sendDone cfg c io.drain)
  | .awaiting _ =>
    if e.cancelReq then some (s.leave.finish c .cancelled)
    else if e.expired then
      some ((s.close (some c) io).1.afterClose c (s.close (some c) io).2)
    else if e.future = .pending then none
    else some (s.awaitFuture cfg c)
  | .closing pc =>
    (s.resumeClose e.cancelReq e.expired io pc).map fun r => r.1.afterClose c r.2

def expire (s : Conn) (c : Caller) : Option Conn :=
  let e := s.execs c
  match e.pc with
  | .awaiting deadline =>
    if deadline ≤ s.now then some (s.setExec c e.expire) else none
  | .closing (.quitting deadline) =>
    if deadline ≤ s.now then some (s.setExec c e.expire) else none
  | _ => none

/-! ## a user's `close` -/

def setCloser (s : Conn) (n : Nat) (c : Closer) : Conn :=
  { s with closers := Function.update s.closers n c }

/-- the task of the user's `close` call after a segment -/
def closerAfter (s : Conn) (n : Nat) : CloseResult → Conn
  | .suspended pc => s.setCloser n { s.closers n with pc := .closing pc, expired := false }
  | .returned => { s with closeReturned := true }.setCloser n { pc := .returned }
  | .cancelled => s.setCloser n { pc := .cancelled }

/-! ## the background tasks -/

/-- `self._pending.set_result(…)` -/
def deliver (s : Conn) (data : List Bytes) (error : ErrorLine) : Conn :=
  s.settle (.result data error)

/-- `except Exception` of `_recv_loop` -/
def recvCrash (s : Conn) : Conn := { s.shutdown with recvTask := .ended }

/-- one round of `_recv_loop` -/
def recvLine (s : Conn) (line : Bytes) : Conn :=
  let s := { s with received := s.received ++ [line] }
  if line = [] then s
  else if isEventLine line then { s with toFeed := s.toFeed.publishEvent (Event.fromLine line) }
  else if isErrorLine line then
    match parseErrorLine line with
    | .ok error => { s with dataBuffer := [] }.deliver s.dataBuffer error
    | .error _ => recvCrash { s with dataBuffer := [] }
  else { s with dataBuffer := s.dataBuffer ++ [line] }

/-- the end of the stream: `read_line` raises, `_recv_loop` shuts down and ends -/
def recvEof (s : Conn) : Conn := { s.sendFailed.shutdown with recvTask := .ended }

/-- the loop of `_keepalive_loop` up to its suspension or its end -/
def keepaliveLoop (cfg : Config) (s : Conn) : Conn :=
  if s.closed then { s with keepaliveTask := .ended }
  else
    let dueIn := cfg.keepaliveInterval - (s.now - s.lastActivity)
    if 0 < dueIn then { s with keepaliveTask := .sleeping (s.now + dueIn) }
    else
      startExec cfg { s with keepaliveTask := .executing } .keepalive
        (renderCommand (lit "whoami") [] none [])

def keepalive (cfg : Config) (s : Conn) : Option Conn :=
  match s.keepaliveTask with
  | .absent | .ended => none
  | .ready =>
    if (s.execs .keepalive).cancelReq then some { s with keepaliveTask := .ended }
    else some (s.keepaliveLoop cfg)
  | .sleeping wake =>
    if (s.execs .keepalive).cancelReq then some { s with keepaliveTask := .ended }
    else if wake ≤ s.now then some (s.keepaliveLoop cfg)
    else none
  | .executing =>
    match (s.execs .keepalive).pc with
    | .finished (.rows _) => some (s.keepaliveLoop cfg)
    | .finished _ => some { s with keepaliveTask := .ended }
    | _ => none

end Conn
end Atsq
