import Atsq.Connection.State
import Atsq.Lib.Run

/-!
# The runs of a connection

`step cfg s a` is the state after the action `a`, one segment of one task, one timer, one
cancellation, or one line from the peer; `none` where `a` cannot happen.  `asyncio.Lock` is assumed:
any task that waits for a free lock may obtain it.  A call of `exec` always waits first, and the
keepalive task is let run once more between the end of its `exec` and its next round; both only add
interleavings.

Main result: `step_cases`, what a step is, branch by branch.
-/

namespace Atsq
open Py

inductive Action where
  | exec (n : Nat) (cmd : Str) (options : List Str) (blocks : Option (List Block)) (params : Block)
  | acquire (c : Caller) (drain : Drain)
  | resume (c : Caller) (io : Io)
  /-- a timer of a task inside `exec` fires -/
  | expire (c : Caller)
  | cancel (n : Nat)
  | wait (n : Nat) (timeout : Option ℚ)
  | resumeWait (n : Nat)
  | expireWait (n : Nat)
  | cancelWait (n : Nat)
  | close (n : Nat) (io : Io)
  | resumeClose (n : Nat) (io : Io)
  | expireClose (n : Nat)
  | cancelClose (n : Nat)
  | keepalive
  | recv (line : Bytes)
  /-- the receive loop finds the end of the stream, or `ConnectionLost` -/
  | eof
  /-- `stdout.read` raises any other `Exception` in the receive loop -/
  | readError
  | recvStop
  | tick (d : ℚ)

namespace Conn

/-- the deadline of `asyncio.timeout` -/
def deadlineOf (s : Conn) (timeout : Option ℚ) : Option ℚ := timeout.map (s.now + ·)

def withFeed (s : Conn) (f : Feed) : Conn := { s with toFeed := f }

/-- a user's task calls `close`, or goes on with it -/
def closeCall (s : Conn) (n : Nat) (io : Io) : Conn :=
  let s := s.setCloser n {}
  (s.close none io).1.closerAfter n (s.close none io).2

def resumeCloser (s : Conn) (n : Nat) (io : Io) : Option Conn :=
  match (s.closers n).pc with
  | .closing pc =>
    (s.resumeClose (s.closers n).cancelReq (s.closers n).expired io pc).map fun r =>
      r.1.closerAfter n r.2
  | _ => none

def expireCloser (s : Conn) (n : Nat) : Option Conn :=
  match (s.closers n).pc with
  | .closing (.quitting deadline) =>
    if deadline ≤ s.now then some (s.setCloser n { s.closers n with expired := true }) else none
  | _ => none

def cancelCloser (s : Conn) (n : Nat) : Option Conn :=
  match (s.closers n).pc with
  | .closing _ => some (s.setCloser n { s.closers n with cancelReq := true })
  | _ => none

def step (cfg : Config) (s : Conn) : Action → Option Conn
  | .exec n cmd options blocks params =>
    if (s.execs (.task n)).pc.free then
      some (s.startExec cfg (.task n) (renderCommand cmd options blocks params))
    else none
  | .acquire c drain =>
    match (s.execs c).pc with
    | .locking =>
      if s.cmdLock.isNone && !(s.execs c).cancelReq then some (s.execLine cfg c drain) else none
    | _ => none
  | .resume c io => s.resume cfg c io
  | .expire c => s.expire c
  | .cancel n =>
    if (s.execs (.task n)).pc.free then none else some (s.cancelExec (.task n))
  | .wait n timeout => (s.toFeed.waitForEvent n (s.deadlineOf timeout)).map s.withFeed
  | .resumeWait n => (s.toFeed.resumeWait n).map s.withFeed
  | .expireWait n => (s.toFeed.expireWait n s.now).map s.withFeed
  | .cancelWait n => (s.toFeed.cancelWait n).map s.withFeed
  | .close n io => if (s.closers n).free then some (s.closeCall n io) else none
  | .resumeClose n io => s.resumeCloser n io
  | .expireClose n => s.expireCloser n
  | .cancelClose n => s.cancelCloser n
  | .keepalive => s.keepalive cfg
  | .recv line => if s.recvTask = .running then some (s.recvLine line) else none
  | .eof => if s.recvTask = .running then some s.recvEof else none
  | .readError => if s.recvTask = .running then some s.recvCrash else none
  | .recvStop => if s.recvTask = .cancelling then some { s with recvTask := .ended } else none
  | .tick d => if 0 ≤ d then some { s with now := s.now + d } else none

/-! ## what a step is, branch by branch -/

inductive Resumed (cfg : Config) (s : Conn) (c : Caller) (io : Io) : Conn → Prop where
  | cancelLocking : (s.execs c).pc = .locking → Resumed cfg s c io (s.finish c .cancelled)
  | cancelSleeping {wake : ℚ} : (s.execs c).pc = .sleeping wake →
      Resumed cfg s c io (s.finish c .cancelled)
  | retry {wake : ℚ} : (s.execs c).pc = .sleeping wake →
      Resumed cfg s c io (s.startAttempt cfg c ((s.execs c).attempt + 1))
  | cancelSent : (s.execs c).cancelReq = true →
      ((s.execs c).pc = .sending ∨ ∃ d, (s.execs c).pc = .awaiting d) →
      Resumed cfg s c io (s.leave.finish c .cancelled)
  | sendDone : (s.execs c).pc = .sending → (s.execs c).cancelReq = false →
      Resumed cfg s c io (s.sendDone cfg c io.drain)
  | timeout {d : ℚ} : (s.execs c).pc = .awaiting d → (s.execs c).cancelReq = false →
      (s.execs c).expired = true →
      Resumed cfg s c io ((s.close (some c) io).1.afterClose c (s.close (some c) io).2)
  | response {d : ℚ} : (s.execs c).pc = .awaiting d → (s.execs c).cancelReq = false →
      (s.execs c).expired = false → (s.execs c).future ≠ .pending →
      Resumed cfg s c io (s.awaitFuture cfg c)
  | closing {pc : ClosePc} {r : Conn × CloseResult} : (s.execs c).pc = .closing pc →
      s.resumeClose (s.execs c).cancelReq (s.execs c).expired io pc = some r →
      Resumed cfg s c io (r.1.afterClose c r.2)

theorem resume_cases {cfg : Config} {s s' : Conn} {c : Caller} {io : Io}
    (hs : s.resume cfg c io = some s') : Resumed cfg s c io s' := by
  unfold resume at hs
  simp only [] at hs
  split at hs
  · cases hs
  · cases hs
  · rename_i hpc
    split at hs <;> cases hs
    exact .cancelLocking hpc
  · rename_i wake hpc
    split at hs
    · cases hs
      exact .cancelSleeping hpc
    · split at hs <;> cases hs
      exact .retry hpc
  · rename_i hpc
    split at hs
    · rename_i hq
      cases hs
      exact .cancelSent hq (Or.inl hpc)
    · rename_i hq
      split at hs <;> cases hs
      exact .sendDone hpc (Bool.eq_false_iff.mpr hq)
  · rename_i d hpc
    split at hs
    · rename_i hq
      cases hs
      exact .cancelSent hq (Or.inr ⟨d, hpc⟩)
    · rename_i hq
      have hq := Bool.eq_false_iff.mpr hq
      split at hs
      · rename_i he
        cases hs
        exact .timeout hpc hq he
      · rename_i he
        split at hs <;> cases hs
        rename_i hf
        exact .response hpc hq (Bool.eq_false_iff.mpr he) hf
  · rename_i pc hpc
    obtain ⟨r, hr, rfl⟩ := Option.map_eq_some_iff.mp hs
    exact .closing hpc hr

/-- the keepalive task is not inside a call of `exec` -/
def KeepaliveIdle (s : Conn) : Prop :=
  s.keepaliveTask ≠ .executing ∨ (s.execs .keepalive).pc.free = true

theorem KeepaliveIdle.free {s : Conn} (h : KeepaliveIdle s)
    (hk : (s.execs .keepalive).pc.free = false → s.keepaliveTask = .executing) :
    (s.execs .keepalive).pc.free = true := by
  rcases h with h | h
  · by_contra hf
    exact h (hk (Bool.eq_false_iff.mpr hf))
  · exact h

inductive KeptAlive (cfg : Config) (s : Conn) : Conn → Prop where
  | ended : KeepaliveIdle s → KeptAlive cfg s { s with keepaliveTask := .ended }
  | loop : KeepaliveIdle s → KeptAlive cfg s (s.keepaliveLoop cfg)

theorem keepalive_cases {cfg : Config} {s s' : Conn} (hs : s.keepalive cfg = some s') :
    KeptAlive cfg s s' := by
  unfold keepalive at hs
  split at hs
  · cases hs
  · cases hs
  · rename_i ht
    have hidle : KeepaliveIdle s := Or.inl (by rw [ht]; exact KeepaliveTask.noConfusion)
    split at hs <;> cases hs
    · exact .ended hidle
    · exact .loop hidle
  · rename_i wake ht
    have hidle : KeepaliveIdle s := Or.inl (by rw [ht]; exact KeepaliveTask.noConfusion)
    split at hs
    · cases hs
      exact .ended hidle
    · split at hs <;> cases hs
      exact .loop hidle
  · split at hs <;> cases hs
    · rename_i hpc
      exact .loop (Or.inr (by rw [hpc]; rfl))
    · rename_i hpc
      exact .ended (Or.inr (by rw [hpc]; rfl))

inductive Round (cfg : Config) (s : Conn) : Conn → Prop where
  | ended : s.closed = true → Round cfg s { s with keepaliveTask := .ended }
  | sleeps : s.closed = false → s.now < s.lastActivity + cfg.keepaliveInterval → Round cfg s
      { s with keepaliveTask := .sleeping (s.lastActivity + cfg.keepaliveInterval) }
  | issues : s.closed = false → s.lastActivity + cfg.keepaliveInterval ≤ s.now → Round cfg s
      (startExec cfg { s with keepaliveTask := .executing } .keepalive
        (renderCommand (lit "whoami") [] none []))

theorem round_keepaliveLoop (cfg : Config) (s : Conn) : Round cfg s (s.keepaliveLoop cfg) := by
  unfold keepaliveLoop
  split
  · rename_i hclosed
    exact .ended hclosed
  · rename_i hopen
    have hopen := Bool.eq_false_iff.mpr hopen
    simp only []
    split
    · have hwake : s.now + (cfg.keepaliveInterval - (s.now - s.lastActivity))
          = s.lastActivity + cfg.keepaliveInterval := by ring
      rw [hwake]
      exact .sleeps hopen (by linarith)
    · exact .issues hopen (by linarith)

/-- the keepalive task ended where it was, or it went round its loop -/
theorem KeptAlive.round {cfg : Config} {s s' : Conn} (h : KeptAlive cfg s s') :
    KeepaliveIdle s ∧ (s' = { s with keepaliveTask := .ended } ∨ Round cfg s s') := by
  cases h with
  | ended hidle => exact ⟨hidle, Or.inl rfl⟩
  | loop hidle => exact ⟨hidle, Or.inr (round_keepaliveLoop cfg s)⟩

def feedAct (s : Conn) : Action → Option Feed.Act
  | .wait n timeout => some (.wait n (s.deadlineOf timeout))
  | .resumeWait n => some (.resume n)
  | .expireWait n => some (.expire n s.now)
  | .cancelWait n => some (.cancel n)
  | _ => none

inductive Step (cfg : Config) (s : Conn) : Action → Conn → Prop where
  | exec {n : Nat} {cmd : Str} {options : List Str} {blocks : Option (List Block)}
      {params : Block} : (s.execs (.task n)).pc.free = true →
      Step cfg s (.exec n cmd options blocks params)
        (s.startExec cfg (.task n) (renderCommand cmd options blocks params))
  | acquire {c : Caller} {drain : Drain} : (s.execs c).pc = .locking → s.cmdLock = none →
      (s.execs c).cancelReq = false → Step cfg s (.acquire c drain) (s.execLine cfg c drain)
  | resume {c : Caller} {io : Io} {s' : Conn} : Resumed cfg s c io s' →
      Step cfg s (.resume c io) s'
  | expire {c : Caller} {d : ℚ} : (s.execs c).pc = .awaiting d →
      Step cfg s (.expire c) (s.setExec c (s.execs c).expire)
  | expireQuit {c : Caller} {d : ℚ} : (s.execs c).pc = .closing (.quitting d) →
      Step cfg s (.expire c) (s.setExec c (s.execs c).expire)
  | cancel {n : Nat} : Step cfg s (.cancel n) (s.cancelExec (.task n))
  | feed {a : Action} {fa : Feed.Act} {f : Feed} : s.feedAct a = some fa →
      s.toFeed.step fa = some f → Step cfg s a (s.withFeed f)
  | close {n : Nat} {io : Io} : (s.closers n).free = true →
      Step cfg s (.close n io) (s.closeCall n io)
  | resumeClose {n : Nat} {io : Io} {pc : ClosePc} {r : Conn × CloseResult} :
      (s.closers n).pc = .closing pc →
      s.resumeClose (s.closers n).cancelReq (s.closers n).expired io pc = some r →
      Step cfg s (.resumeClose n io) (r.1.closerAfter n r.2)
  | expireClose {n : Nat} : Step cfg s (.expireClose n)
      (s.setCloser n { s.closers n with expired := true })
  | cancelClose {n : Nat} : Step cfg s (.cancelClose n)
      (s.setCloser n { s.closers n with cancelReq := true })
  | keepalive {s' : Conn} : KeptAlive cfg s s' → Step cfg s .keepalive s'
  | recv {line : Bytes} : s.recvTask = .running → Step cfg s (.recv line) (s.recvLine line)
  | eof : s.recvTask = .running → Step cfg s .eof s.recvEof
  | readError : s.recvTask = .running → Step cfg s .readError s.recvCrash
  | recvStop : s.recvTask = .cancelling → Step cfg s .recvStop { s with recvTask := .ended }
  | tick {d : ℚ} : 0 ≤ d → Step cfg s (.tick d) { s with now := s.now + d }

theorem step_cases {cfg : Config} {s s' : Conn} {a : Action} (hs : s.step cfg a = some s') :
    Step cfg s a s' := by
  have hfeed : ∀ fa : Feed.Act, s.feedAct a = some fa →
      (s.toFeed.step fa).map s.withFeed = some s' → Step cfg s a s' := by
    intro fa hfa hmap
    obtain ⟨f, hf, rfl⟩ := Option.map_eq_some_iff.mp hmap
    exact .feed hfa hf
  cases a with
  | exec n cmd options blocks params =>
    simp only [step] at hs
    split at hs <;> cases hs
    rename_i hfree
    exact .exec hfree
  | acquire c drain =>
    simp only [step] at hs
    split at hs
    · rename_i hpc
      split at hs <;> cases hs
      rename_i hlock
      rw [Bool.and_eq_true, Bool.not_eq_true', Option.isNone_iff_eq_none] at hlock
      exact .acquire hpc hlock.1 hlock.2
    · cases hs
  | resume c io => exact .resume (resume_cases hs)
  | expire c =>
    simp only [step, Conn.expire] at hs
    split at hs
    · rename_i hpc
      split at hs <;> cases hs
      exact .expire hpc
    · rename_i hpc
      split at hs <;> cases hs
      exact .expireQuit hpc
    · cases hs
  | cancel n =>
    simp only [step] at hs
    split at hs <;> cases hs
    exact .cancel
  | wait n timeout => exact hfeed _ rfl hs
  | resumeWait n => exact hfeed _ rfl hs
  | expireWait n => exact hfeed _ rfl hs
  | cancelWait n => exact hfeed _ rfl hs
  | close n io =>
    simp only [step] at hs
    split at hs <;> cases hs
    rename_i hfree
    exact .close hfree
  | resumeClose n io =>
    simp only [step, resumeCloser] at hs
    split at hs
    · rename_i pc hpc
      obtain ⟨r, hr, rfl⟩ := Option.map_eq_some_iff.mp hs
      exact .resumeClose hpc hr
    · cases hs
  | expireClose n =>
    simp only [step, expireCloser] at hs
    split at hs
    · split at hs <;> cases hs
      exact .expireClose
    · cases hs
  | cancelClose n =>
    simp only [step, cancelCloser] at hs
    split at hs <;> cases hs
    exact .cancelClose
  | keepalive => exact .keepalive (keepalive_cases hs)
  | recv line =>
    simp only [step] at hs
    split at hs <;> cases hs
    rename_i hrun
    exact .recv hrun
  | eof =>
    simp only [step] at hs
    split at hs <;> cases hs
    rename_i hrun
    exact .eof hrun
  | readError =>
    simp only [step] at hs
    split at hs <;> cases hs
    rename_i hrun
    exact .readError hrun
  | recvStop =>
    simp only [step] at hs
    split at hs <;> cases hs
    rename_i hstop
    exact .recvStop hstop
  | tick d =>
    simp only [step] at hs
    split at hs <;> cases hs
    rename_i hd
    exact .tick hd

theorem feedAct_ne_shutdown {s : Conn} {a : Action} {fa : Feed.Act} (h : s.feedAct a = some fa) :
    fa ≠ .shutdown := by
  rintro rfl
  cases a <;> cases h

end Conn
end Atsq
