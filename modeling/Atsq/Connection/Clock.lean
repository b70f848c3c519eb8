import Atsq.Connection.Call

/-!
# The clock and `_last_activity`

* `SameClock`   neither has changed;
* `Touched`     the last activity is now;
* `sentOrAnswered`   a call has sent its line or got its answer;
* `ClockStep`   what a step does to the clock.

Main result: `step_clock`: only a caller that has the lock touches the clock, and it does whenever
its line is sent or answered.
-/

namespace Atsq
open Py

/-- before `send_line` returns, or before the answer -/
def ExecPc.underWay : ExecPc → Bool
  | .locking | .sending | .awaiting _ => true
  | _ => false

def ExecPc.past : ExecPc → Bool
  | .awaiting _ | .sleeping _ | .finished (.rows _) | .finished (.queryError _) => true
  | _ => false

/-- between these two places of its call, the caller's line was sent or answered -/
def sentOrAnswered (pc pc' : ExecPc) : Bool := pc.underWay && pc'.past

theorem sentOrAnswered_of_past {pc pc' : ExecPc} (h : pc'.past = false) :
    sentOrAnswered pc pc' = false := by
  unfold sentOrAnswered
  rw [h, Bool.and_false]

def Action.caller : Action → Option Caller
  | .acquire c _ => some c
  | .resume c _ => some c
  | _ => none

namespace Conn

structure SameClock (s s' : Conn) : Prop where
  now : s'.now = s.now
  lastActivity : s'.lastActivity = s.lastActivity

structure Touched (s s' : Conn) : Prop where
  now : s'.now = s.now
  lastActivity : s'.lastActivity = s.now

theorem SameClock.refl (s : Conn) : SameClock s s := ⟨rfl, rfl⟩

theorem SameClock.trans {s₁ s₂ s₃ : Conn} (h₁ : SameClock s₁ s₂) (h₂ : SameClock s₂ s₃) :
    SameClock s₁ s₃ :=
  ⟨h₂.now.trans h₁.now, h₂.lastActivity.trans h₁.lastActivity⟩

theorem SameClock.touched {s s' : Conn} (h : SameClock s.touch s') : Touched s s' :=
  ⟨h.now, h.lastActivity⟩

/-! ## the methods -/

section
variable (cfg : Config) (s : Conn) (c : Caller)

theorem sameClock_settle (f : Future) : SameClock s (s.settle f) := by
  unfold settle
  split
  · split <;> exact ⟨rfl, rfl⟩
  · exact .refl s

theorem sameClock_cancelKeepalive : SameClock s s.cancelKeepalive := by
  unfold cancelKeepalive
  split <;> exact ⟨rfl, rfl⟩

theorem sameClock_shutdown : SameClock s s.shutdown := by
  unfold shutdown
  split
  · exact .refl s
  · have hfail := sameClock_settle s .exception
    have hfeed : SameClock s { s.failPending with toFeed := s.toFeed.shutdown } :=
      ⟨hfail.now, hfail.lastActivity⟩
    exact hfeed.trans (sameClock_cancelKeepalive _)

theorem sameClock_closeTransport (io : Io) : SameClock s (s.closeTransport io).1 := by
  unfold closeTransport
  split <;> exact ⟨rfl, rfl⟩

theorem sameClock_quit (io : Io) : SameClock s (s.quit io).1 := by
  have hquit : ∀ t, SameClock s { s with transport := t, quits := s.quits + 1 } := fun _ =>
    ⟨rfl, rfl⟩
  unfold quit
  split
  · exact sameClock_closeTransport s io
  · rename_i t _
    simp only []
    split
    · exact hquit t
    · exact (hquit t).trans (sameClock_closeTransport _ io)
    · exact (hquit t).trans (sameClock_closeTransport _ io)
    · refine (hquit t).trans (SameClock.trans ?_ (sameClock_closeTransport _ io))
      exact ⟨rfl, rfl⟩

theorem sameClock_beginClose (current : Option Caller) : SameClock s (s.beginClose current) := by
  have hshut := sameClock_shutdown s
  unfold beginClose
  split
  · exact ⟨hshut.now, hshut.lastActivity⟩
  · have hcancel := hshut.trans (sameClock_cancelKeepalive s.shutdown)
    exact ⟨hcancel.now, hcancel.lastActivity⟩

theorem sameClock_close (current : Option Caller) (io : Io) :
    SameClock s (s.close current io).1 := by
  cases hc : s.closed with
  | true =>
    rw [close_of_closed s current io hc]
    exact .refl s
  | false =>
    rw [close_of_open s current io hc]
    refine (sameClock_beginClose s current).trans ?_
    split
    · exact sameClock_closeTransport _ io
    · exact sameClock_quit _ io

variable {s} in
theorem sameClock_resumeClose {q e : Bool} {io : Io} {pc : ClosePc} {r : Conn × CloseResult}
    (h : s.resumeClose q e io pc = some r) : SameClock s r.1 := by
  unfold resumeClose at h
  split at h
  · split at h
    · cases h
      exact .refl s
    · split at h
      · cases h
        exact sameClock_closeTransport s io
      · split at h <;> cases h
        · exact sameClock_closeTransport s io
        · exact sameClock_closeTransport s io
        · have hfail : SameClock s s.sendFailed := ⟨rfl, rfl⟩
          exact hfail.trans (sameClock_closeTransport s.sendFailed io)
  · split at h <;> cases h <;> exact .refl s

theorem sameClock_startAttempt (k : Nat) : SameClock s (s.startAttempt cfg c k) := by
  unfold startAttempt
  split <;> exact ⟨rfl, rfl⟩

theorem sameClock_startExec (line : Except RenderError Bytes) :
    SameClock s (s.startExec cfg c line) := by
  unfold startExec
  split
  · exact ⟨rfl, rfl⟩
  · have h := sameClock_startAttempt cfg (s.setExec c { line := ‹Bytes› }) c 0
    exact ⟨h.now, h.lastActivity⟩

theorem sameClock_afterClose (r : CloseResult) : SameClock s (s.afterClose c r) := by
  cases r <;> exact ⟨rfl, rfl⟩

theorem sameClock_closerAfter (n : Nat) (r : CloseResult) : SameClock s (s.closerAfter n r) := by
  cases r <;> exact ⟨rfl, rfl⟩

theorem sameClock_recvLine (line : Bytes) : SameClock s (s.recvLine line) := by
  unfold recvLine
  simp only []
  split
  · exact ⟨rfl, rfl⟩
  · split
    · exact ⟨rfl, rfl⟩
    · split
      · split
        · have h := sameClock_settle { s with received := s.received ++ [line], dataBuffer := [] }
            (.result s.dataBuffer ‹ErrorLine›)
          exact ⟨h.now, h.lastActivity⟩
        · have h := sameClock_shutdown
            { s with received := s.received ++ [line], dataBuffer := [] }
          exact ⟨h.now, h.lastActivity⟩
      · exact ⟨rfl, rfl⟩

variable {cfg s} in
theorem sameClock_keepalive {s' : Conn} (h : KeptAlive cfg s s') : SameClock s s' := by
  obtain ⟨_, rfl | hround⟩ := h.round
  · exact ⟨rfl, rfl⟩
  · cases hround with
    | ended _ => exact ⟨rfl, rfl⟩
    | sleeps _ _ => exact ⟨rfl, rfl⟩
    | issues _ _ =>
      have h := sameClock_startExec cfg { s with keepaliveTask := .executing } .keepalive
        (renderCommand (lit "whoami") [] none [])
      exact ⟨h.now, h.lastActivity⟩

end

/-! ## the caller that has the lock -/

inductive Clocked (s : Conn) (c : Caller) (s' : Conn) : Prop where
  | quiet : SameClock s s' → sentOrAnswered (s.execs c).pc (s'.execs c).pc = false →
      Clocked s c s'
  | touch : Touched s s' → ((s.execs c).pc.critical = true ∨ s'.cmdLock = some c) →
      Clocked s c s'

section
variable {cfg : Config} {s s' : Conn} {c : Caller}

theorem clock_awaitFuture (cfg : Config) (s : Conn) (c : Caller) :
    Touched s (s.awaitFuture cfg c) ∨ SameClock s (s.awaitFuture cfg c) ∧
      ((s.execs c).future ≠ .pending → ((s.awaitFuture cfg c).execs c).pc.past = false) := by
  unfold awaitFuture
  cases hf : (s.execs c).future with
  | pending => exact Or.inr ⟨⟨rfl, rfl⟩, fun h => absurd rfl h⟩
  | result data error =>
    refine Or.inl ?_
    simp only []
    rw [complete_eq]
    exact ⟨rfl, rfl⟩
  | exception =>
    refine Or.inr ⟨⟨rfl, rfl⟩, fun _ => ?_⟩
    rw [finish_pc]
    rfl
  | cancelled =>
    refine Or.inr ⟨⟨rfl, rfl⟩, fun _ => ?_⟩
    rw [finish_pc]
    rfl

theorem clock_sendDone (cfg : Config) (s : Conn) (c : Caller) (drain : Drain) :
    Touched s (s.sendDone cfg c drain) ∨ SameClock s (s.sendDone cfg c drain) ∧
      ((s.execs c).pc = .sending → ((s.sendDone cfg c drain).execs c).pc.past = false) := by
  cases drain with
  | suspends =>
    refine Or.inr ⟨.refl s, fun hpc => ?_⟩
    show (s.execs c).pc.past = false
    rw [hpc]
    rfl
  | done =>
    rcases clock_awaitFuture cfg s.touch c with h | ⟨h, _⟩
    · exact Or.inl ⟨h.now, h.lastActivity⟩
    · exact Or.inl h.touched
  | fails =>
    refine Or.inr ⟨⟨rfl, rfl⟩, fun _ => ?_⟩
    show ((s.sendFailed.leave.finish c _).execs c).pc.past = false
    rw [finish_pc]
    rfl
  | raises =>
    refine Or.inr ⟨⟨rfl, rfl⟩, fun _ => ?_⟩
    show ((s.leave.finish c _).execs c).pc.past = false
    rw [finish_pc]
    rfl

theorem clock_execLine (cfg : Config) (s : Conn) (c : Caller) (drain : Drain) :
    Clocked s c (s.execLine cfg c drain) := by
  have hfinish : Clocked s c (s.finish c .connectionClosed) :=
    .quiet ⟨rfl, rfl⟩ (sentOrAnswered_of_past (by rw [finish_pc]; rfl))
  unfold execLine
  split
  · exact hfinish
  · split
    · exact hfinish
    · rename_i t _
      cases drain with
      | suspends =>
        refine .quiet ⟨rfl, rfl⟩ (sentOrAnswered_of_past ?_)
        show ((s.handOver c t).execs c).pc.past = false
        rw [exec_handOver]
        rfl
      | done =>
        rw [sendDone_handOver]
        exact .touch ⟨rfl, rfl⟩ (Or.inr rfl)
      | fails =>
        refine .quiet ⟨rfl, rfl⟩ (sentOrAnswered_of_past ?_)
        show (((s.handOver c t).sendFailed.leave.finish c _).execs c).pc.past = false
        rw [finish_pc]
        rfl
      | raises =>
        refine .quiet ⟨rfl, rfl⟩ (sentOrAnswered_of_past ?_)
        show (((s.handOver c t).leave.finish c _).execs c).pc.past = false
        rw [finish_pc]
        rfl

theorem afterClose_past (s : Conn) (c : Caller) (r : CloseResult) :
    ((s.afterClose c r).execs c).pc.past = false := by
  cases r with
  | suspended pc =>
    show ((s.setExec c _).execs c).pc.past = false
    rw [setExec_self]
    rfl
  | returned =>
    show ((finish _ c _).execs c).pc.past = false
    rw [finish_pc]
    rfl
  | cancelled =>
    show ((finish _ c _).execs c).pc.past = false
    rw [finish_pc]
    rfl

theorem clock_resume {io : Io} (h : Resumed cfg s c io s') : Clocked s c s' := by
  have hfinish : ∀ {r : Conn} {o : Outcome}, SameClock s r → ExecPc.past (.finished o) = false →
      Clocked s c (r.finish c o) := fun hr ho =>
    .quiet ⟨hr.now, hr.lastActivity⟩ (sentOrAnswered_of_past (by rw [finish_pc]; exact ho))
  cases h with
  | cancelLocking _ => exact hfinish (.refl s) rfl
  | cancelSleeping _ => exact hfinish (.refl s) rfl
  | retry hpc =>
    refine .quiet (sameClock_startAttempt cfg s c _) ?_
    rw [hpc]
    rfl
  | cancelSent _ _ => exact hfinish (r := s.leave) ⟨rfl, rfl⟩ rfl
  | sendDone hpc _ =>
    rcases clock_sendDone cfg s c io.drain with h | ⟨h, hpast⟩
    · exact .touch h (Or.inl (by rw [hpc]; rfl))
    · exact .quiet h (sentOrAnswered_of_past (hpast hpc))
  | timeout _ _ _ =>
    exact .quiet ((sameClock_close s (some c) io).trans (sameClock_afterClose _ c _))
      (sentOrAnswered_of_past (afterClose_past _ c _))
  | response hpc _ _ hf =>
    rcases clock_awaitFuture cfg s c with h | ⟨h, hpast⟩
    · exact .touch h (Or.inl (by rw [hpc]; rfl))
    · exact .quiet h (sentOrAnswered_of_past (hpast hf))
  | closing _ hr =>
    exact .quiet ((sameClock_resumeClose hr).trans (sameClock_afterClose _ c _))
      (sentOrAnswered_of_past (afterClose_past _ c _))

end

/-! ## every step -/

inductive ClockStep (s : Conn) (a : Action) (s' : Conn) : Prop where
  | quiet : SameClock s s' → (∀ c, a.caller = some c →
      sentOrAnswered (s.execs c).pc (s'.execs c).pc = false) → ClockStep s a s'
  | touch (c : Caller) : a.caller = some c → Touched s s' →
      ((s.execs c).pc.critical = true ∨ s'.cmdLock = some c) → ClockStep s a s'
  | tick (d : ℚ) : a = .tick d → 0 ≤ d → s' = { s with now := s.now + d } → ClockStep s a s'

section
variable {cfg : Config} {s s' : Conn} {a : Action}

theorem Clocked.step {c : Caller} (h : Clocked s c s') (ha : a.caller = some c) :
    ClockStep s a s' := by
  cases h with
  | quiet h hline =>
    refine .quiet h fun c' hc' => ?_
    cases ha.symm.trans hc'
    exact hline
  | touch h hlock => exact .touch c ha h hlock

theorem SameClock.step (h : SameClock s s') (ha : a.caller = none) : ClockStep s a s' :=
  .quiet h fun c hc => by rw [ha] at hc; cases hc

/-- **What a step does to the clock.** -/
theorem step_clock (hs : s.step cfg a = some s') : ClockStep s a s' := by
  cases step_cases hs with
  | exec _ => exact (sameClock_startExec cfg s _ _).step rfl
  | @acquire c drain _ _ _ => exact (clock_execLine cfg s c drain).step rfl
  | resume h => exact (clock_resume h).step rfl
  | expire _ => exact SameClock.step ⟨rfl, rfl⟩ rfl
  | expireQuit _ => exact SameClock.step ⟨rfl, rfl⟩ rfl
  | cancel => exact SameClock.step ⟨rfl, rfl⟩ rfl
  | feed hfa _ => exact SameClock.step ⟨rfl, rfl⟩ (by cases a <;> first | rfl | cases hfa)
  | @close n io _ =>
    have h := sameClock_close (s.setCloser n {}) none io
    have hclose : SameClock s ((s.setCloser n {}).close none io).1 := ⟨h.now, h.lastActivity⟩
    exact (hclose.trans (sameClock_closerAfter _ n _)).step rfl
  | @resumeClose n io pc r _ hr =>
    exact ((sameClock_resumeClose hr).trans (sameClock_closerAfter _ n _)).step rfl
  | expireClose => exact SameClock.step ⟨rfl, rfl⟩ rfl
  | cancelClose => exact SameClock.step ⟨rfl, rfl⟩ rfl
  | keepalive h => exact (sameClock_keepalive h).step rfl
  | recv _ => exact (sameClock_recvLine s _).step rfl
  | eof _ =>
    have h := sameClock_shutdown s.sendFailed
    exact SameClock.step ⟨h.now, h.lastActivity⟩ rfl
  | readError _ =>
    have h := sameClock_shutdown s
    exact SameClock.step ⟨h.now, h.lastActivity⟩ rfl
  | recvStop _ => exact SameClock.step ⟨rfl, rfl⟩ rfl
  | @tick d hd => exact .tick d rfl hd rfl

theorem step_now (hs : s.step cfg a = some s') :
    s'.now = s.now ∨ ∃ d, 0 ≤ d ∧ a = .tick d ∧ s' = { s with now := s.now + d } := by
  cases step_clock hs with
  | quiet h _ => exact Or.inl h.now
  | touch _ _ h _ => exact Or.inl h.now
  | tick d ha hd he => exact Or.inr ⟨d, hd, ha, he⟩

end

end Conn
end Atsq
