import Atsq.Connection.Frame
import Atsq.Connection.Hold

/-!
# Is the transport released?

* `Conn.hold`         who is inside `close` and what has become of the transport, a `Hold`;
* `ReleaseSafe s a`   the step is none of those after which the transport is never released;
* `step_hold`         a safe step is a step of `Hold`.

Main results: `release_on_every_path`, and `eof_leaks_transport`, a run that ends with the transport
held for good.
-/

namespace Atsq
open Py

def ClosePc.phase : ClosePc → Phase
  | .quitting _ => .quitting
  | .releasing => .releasing

def ExecPc.phase : ExecPc → Option Phase
  | .closing pc => some pc.phase
  | _ => none

def CloserPc.phase : CloserPc → Option Phase
  | .closing pc => some pc.phase
  | _ => none

theorem ExecPc.phase_of_free {pc : ExecPc} (h : pc.free = true) : pc.phase = none := by
  cases pc with
  | closing p => cases h
  | _ => rfl

theorem Closer.phase_of_free {e : Closer} (h : e.free = true) : e.pc.phase = none := by
  unfold Closer.free at h
  split at h
  · cases h
  · rename_i hne
    cases hpc : e.pc with
    | closing p => exact absurd hpc (hne p)
    | _ => rfl

namespace Conn

abbrev InClose := Caller ⊕ Nat

def phase (s : Conn) : InClose → Option Phase
  | .inl c => (s.execs c).pc.phase
  | .inr n => (s.closers n).pc.phase

def hold (s : Conn) : Hold InClose where
  closed := s.closed
  lost := s.transport.closed
  released := s.transport.connClosed
  returned := s.closeReturned
  phase := s.phase

/-! ## the condition -/

/-- in this step the drain of a write ends so -/
inductive Drains (s : Conn) : Action → Drain → Prop where
  | line (c : Caller) (d : Drain) : s.closed = false → Drains s (.acquire c d) d
  | sending (c : Caller) (io : Io) : (s.execs c).pc = .sending → (s.execs c).cancelReq = false →
      Drains s (.resume c io) io.drain
  | timeout (c : Caller) (io : Io) (d : ℚ) : (s.execs c).pc = .awaiting d →
      (s.execs c).cancelReq = false → (s.execs c).expired = true → s.closed = false →
      Drains s (.resume c io) io.drain
  | quitting (c : Caller) (io : Io) (d : ℚ) : (s.execs c).pc = .closing (.quitting d) →
      (s.execs c).expired = false → Drains s (.resume c io) io.drain
  | close (n : Nat) (io : Io) : s.closed = false → Drains s (.close n io) io.drain
  | closer (n : Nat) (io : Io) (d : ℚ) : (s.closers n).pc = .closing (.quitting d) →
      (s.closers n).expired = false → Drains s (.resumeClose n io) io.drain

/-- in this step a task is cancelled while it sends `quit` -/
inductive CancelsQuit (s : Conn) : Action → Prop where
  | exec (c : Caller) (io : Io) (d : ℚ) : (s.execs c).pc = .closing (.quitting d) →
      (s.execs c).cancelReq = true → CancelsQuit s (.resume c io)
  | closer (n : Nat) (io : Io) (d : ℚ) : (s.closers n).pc = .closing (.quitting d) →
      (s.closers n).cancelReq = true → CancelsQuit s (.resumeClose n io)

/-- in this step a task calls `close` -/
inductive Enters (s : Conn) : Action → Prop where
  | close (n : Nat) (io : Io) : Enters s (.close n io)
  | timeout (c : Caller) (io : Io) (d : ℚ) : (s.execs c).pc = .awaiting d →
      (s.execs c).cancelReq = false → (s.execs c).expired = true → Enters s (.resume c io)

/-- no read raises, the receive loop does not crash on a line, no write fails on an open transport,
no task is cancelled while it sends `quit`, and none calls `close` meanwhile -/
structure ReleaseSafe (s : Conn) (a : Action) : Prop where
  eof : a ≠ .eof
  readError : a ≠ .readError
  crash : ∀ line, a = .recv line → isErrorLine line = true → wellFormed line = true
  drain : Drains s a .fails → s.transport.closed = true
  cancelled : ¬ CancelsQuit s a
  entered : Enters s a → s.closed = true → ∀ i, s.phase i ≠ some .quitting

/-! ## what leaves the hold alone -/

variable {cfg : Config} {s s' : Conn} {c : Caller}

theorem hold_setExec (s : Conn) (c : Caller) (e : Exec) : (s.setExec c e).hold
    = { s.hold with phase := Function.update s.phase (.inl c) e.pc.phase } := by
  have hphase : (s.setExec c e).phase = Function.update s.phase (.inl c) e.pc.phase := by
    funext i
    cases i with
    | inl t =>
      by_cases ht : t = c
      · rw [ht, Function.update_self]
        exact congrArg (fun e : Exec => e.pc.phase) (setExec_self s c e)
      · rw [Function.update_of_ne fun h => ht (Sum.inl.inj h)]
        exact congrArg (fun e : Exec => e.pc.phase) (Function.update_of_ne ht ..)
    | inr n => exact (Function.update_of_ne Sum.inr_ne_inl ..).symm
  show ({ s.hold with phase := (s.setExec c e).phase } : Hold InClose) = _
  rw [hphase]

theorem hold_setCloser (s : Conn) (n : Nat) (e : Closer) : (s.setCloser n e).hold
    = { s.hold with phase := Function.update s.phase (.inr n) e.pc.phase } := by
  have hphase : (s.setCloser n e).phase = Function.update s.phase (.inr n) e.pc.phase := by
    funext i
    cases i with
    | inl c => exact (Function.update_of_ne Sum.inl_ne_inr ..).symm
    | inr m =>
      by_cases hm : m = n
      · rw [hm, Function.update_self]
        exact congrArg (fun e : Closer => e.pc.phase) (Function.update_self ..)
      · rw [Function.update_of_ne fun h => hm (Sum.inr.inj h)]
        exact congrArg (fun e : Closer => e.pc.phase) (Function.update_of_ne hm ..)
  show ({ s.hold with phase := (s.setCloser n e).phase } : Hold InClose) = _
  rw [hphase]

theorem hold_exec {e : Exec} (h : e.pc.phase = (s.execs c).pc.phase) :
    (s.setExec c e).hold = s.hold := by
  rw [hold_setExec, h]
  show ({ s.hold with phase := Function.update s.phase (.inl c) (s.phase (.inl c)) } :
    Hold InClose) = _
  rw [Function.update_eq_self]
  rfl

theorem hold_closer {n : Nat} {e : Closer} (h : e.pc.phase = (s.closers n).pc.phase) :
    (s.setCloser n e).hold = s.hold := by
  rw [hold_setCloser, h]
  show ({ s.hold with phase := Function.update s.phase (.inr n) (s.phase (.inr n)) } :
    Hold InClose) = _
  rw [Function.update_eq_self]
  rfl

theorem hold_finish (h : (s.execs c).pc.phase = none) (o : Outcome) :
    (s.finish c o).hold = s.hold := hold_exec h.symm

theorem hold_settle (s : Conn) (f : Future) : (s.settle f).hold = s.hold := by
  unfold settle
  split
  · split
    · exact hold_exec rfl
    · rfl
  · rfl

theorem hold_cancelKeepalive (s : Conn) : s.cancelKeepalive.hold = s.hold := by
  unfold cancelKeepalive
  split
  · rfl
  · rfl
  · exact hold_exec (congrArg ExecPc.phase (Exec.cancel_pc _))

theorem hold_sendFailed (h : s.transport.closed = true) : s.sendFailed.hold = s.hold := by
  show ({ s.hold with lost := true } : Hold InClose) = _
  rw [← h]
  rfl

theorem hold_startAttempt (h : (s.execs c).pc.phase = none) (k : Nat) :
    (s.startAttempt cfg c k).hold = s.hold := by
  unfold startAttempt
  split
  · exact hold_exec h.symm
  · exact hold_finish h _

theorem hold_startExec (h : (s.execs c).pc.phase = none) (line : Except RenderError Bytes) :
    (s.startExec cfg c line).hold = s.hold := by
  unfold startExec
  cases line with
  | error e => exact hold_exec h.symm
  | ok line =>
    refine (hold_startAttempt ?_ 0).trans (hold_exec h.symm)
    rw [setExec_self]
    rfl

theorem hold_complete (h : (s.execs c).pc.phase = none) (data : List Bytes) (error : ErrorLine) :
    (s.complete cfg c data error).hold = s.hold := by
  have hleave : (s.leave.touch.execs c).pc.phase = none := h
  unfold complete
  simp only []
  split
  · exact hold_finish hleave _
  · split
    · exact hold_exec hleave.symm
    · exact hold_finish hleave _

theorem hold_awaitFuture (h : (s.execs c).pc.phase = none) :
    (s.awaitFuture cfg c).hold = s.hold := by
  have hleave : (s.leave.execs c).pc.phase = none := h
  unfold awaitFuture
  split
  · exact hold_exec h.symm
  · exact hold_complete h _ _
  · exact hold_finish hleave _
  · exact hold_finish hleave _

theorem hold_sendDone (h : (s.execs c).pc.phase = none) {drain : Drain}
    (hd : drain = .fails → s.transport.closed = true) :
    (s.sendDone cfg c drain).hold = s.hold := by
  cases drain with
  | suspends => rfl
  | done => exact hold_awaitFuture (s := s.touch) h
  | fails => exact (hold_finish (s := s.sendFailed.leave) h _).trans (hold_sendFailed (hd rfl))
  | raises => exact hold_finish (s := s.leave) h _

theorem hold_execLine (h : (s.execs c).pc.phase = none) {drain : Drain}
    (hd : drain = .fails → s.closed = false → s.transport.closed = true) :
    (s.execLine cfg c drain).hold = s.hold := by
  unfold execLine
  split
  · exact hold_finish h _
  · rename_i hopen
    cases ht : s.transport.sendLine (s.execs c).line with
    | none => exact hold_finish h _
    | some t =>
      obtain ⟨h1, h2, h3⟩ := sendLine_flags ht
      have h2 := h2.trans h1.symm
      have hhand : (s.handOver c t).hold = s.hold := by
        unfold handOver
        refine Eq.trans (hold_exec ?_) ?_
        · exact h.symm
        · show ({ s.hold with lost := t.closed, released := t.connClosed } : Hold InClose) = _
          rw [h2, h3]
          rfl
      refine (hold_sendDone ?_ fun hf => ?_).trans hhand
      · unfold handOver
        rw [setExec_self]
        rfl
      · have := hd hf (Bool.eq_false_iff.mpr hopen)
        rw [h1] at this
        cases this

/-! ## `close` -/

def released (h : Hold InClose) : Hold InClose :=
  { h with closed := true, lost := true, released := true }

def after (h : Hold InClose) (i : InClose) : CloseResult → Hold InClose
  | .suspended pc => { h with phase := Function.update h.phase i (some pc.phase) }
  | .returned => { h with returned := true, phase := Function.update h.phase i none }
  | .cancelled => { h with phase := Function.update h.phase i none }

theorem hold_afterClose (s : Conn) (c : Caller) (r : CloseResult) :
    (s.afterClose c r).hold = after s.hold (.inl c) r := by
  cases r with
  | suspended pc => exact hold_setExec s c _
  | returned => exact hold_setExec { s with closeReturned := true }.leave c _
  | cancelled => exact hold_setExec s.leave c _

theorem hold_closerAfter (s : Conn) (n : Nat) (r : CloseResult) :
    (s.closerAfter n r).hold = after s.hold (.inr n) r := by
  cases r with
  | suspended pc => exact hold_setCloser s n _
  | returned => exact hold_setCloser { s with closeReturned := true } n _
  | cancelled => exact hold_setCloser s n _

theorem hold_closeTransport (s : Conn) (io : Io) (hc : s.closed = true)
    (hl : s.transport.closed = s.transport.connClosed) :
    (s.closeTransport io).1.hold = released s.hold ∧
      ((s.closeTransport io).2 = .suspended .releasing ∨ (s.closeTransport io).2 = .returned) := by
  unfold closeTransport released
  split
  · rename_i ht
    refine ⟨?_, Or.inr rfl⟩
    show (⟨s.closed, s.transport.closed, s.transport.connClosed, _, _⟩ : Hold InClose) = _
    rw [hc, ← hl, ht]
    rfl
  · rename_i ht
    have htr : s.transport.close = { s.transport with closed := true, connClosed := true } :=
      if_neg ht
    refine ⟨?_, ?_⟩
    · show ({ s.hold with
        lost := s.transport.close.closed
        released := s.transport.close.connClosed } : Hold InClose) = _
      rw [htr, ← hc]
      rfl
    · split
      · exact Or.inl rfl
      · exact Or.inr rfl

theorem beginClose_hold (s : Conn) (current : Option Caller) (hc : s.closed = false) :
    (s.beginClose current).hold = { s.hold with closed := true } := by
  have hshut : s.shutdown.hold = { s.hold with closed := true } := by
    unfold shutdown
    rw [if_neg (by rw [hc]; decide), hold_cancelKeepalive]
    show ({ s.failPending.hold with closed := s.toFeed.shutdown.closed } : Hold InClose) = _
    rw [feed_shutdown_closed]
    unfold failPending
    rw [hold_settle]
  have hrecv : ∀ r : Conn, r.cancelRecv.hold = r.hold := fun _ => rfl
  unfold beginClose
  rw [hrecv]
  split
  · exact hshut
  · rw [hold_cancelKeepalive]
    exact hshut

theorem hold_close (s : Conn) (current : Option Caller) (io : Io) (hc : s.closed = false)
    (ht : s.transport.closed = false) (hl : s.transport.connClosed = false)
    (hd : io.drain ≠ .fails) :
    (∃ d, s.close current io = ((s.close current io).1, .suspended (.quitting d)) ∧
      (s.close current io).1.hold = { s.hold with closed := true }) ∨
    ((s.close current io).1.hold = released s.hold ∧
      ((s.close current io).2 = .suspended .releasing ∨ (s.close current io).2 = .returned)) := by
  have hbegin := beginClose_hold s current hc
  have hopen : (s.beginClose current).transport.closed = false :=
    (congrArg Hold.lost hbegin).trans ht
  have hconn : (s.beginClose current).transport.connClosed = false :=
    (congrArg Hold.released hbegin).trans hl
  rw [close_of_open s current io hc, if_neg (by rw [hopen]; decide)]
  unfold quit
  cases hsend : (s.beginClose current).transport.sendLine (ascii "quit") with
  | none =>
    unfold SshTransport.sendLine at hsend
    rw [if_neg (by rw [hopen]; decide)] at hsend
    cases hsend
  | some t =>
    obtain ⟨h1, h2, h3⟩ := sendLine_flags hsend
    have h2 := h2.trans h1.symm
    have hquit : { s.beginClose current with
        transport := t, quits := (s.beginClose current).quits + 1 }.hold
        = { s.hold with closed := true } := by
      rw [← hbegin]
      show ({ (s.beginClose current).hold with lost := t.closed, released := t.connClosed } :
        Hold InClose) = _
      rw [h2, h3]
      rfl
    obtain ⟨h4, h5⟩ := hold_closeTransport { s.beginClose current with
      transport := t, quits := (s.beginClose current).quits + 1 } io
      (congrArg Hold.closed hquit) ((h2.trans hopen).trans (h3.trans hconn).symm)
    rw [hquit] at h4
    simp only []
    cases hdrain : io.drain with
    | suspends => exact Or.inl ⟨_, rfl, hquit⟩
    | done => exact Or.inr ⟨h4, h5⟩
    | fails => exact absurd hdrain hd
    | raises => exact Or.inr ⟨h4, h5⟩

/-- a task that sends `quit` goes on, and is not cancelled -/
theorem hold_quitting {e : Bool} {io : Io} {d : ℚ} {r : Conn × CloseResult}
    (hc : s.closed = true) (hl : s.transport.closed = s.transport.connClosed)
    (hd : e = false → io.drain = .fails → s.transport.closed = true)
    (h : s.resumeClose false e io (.quitting d) = some r) :
    r.1.hold = released s.hold ∧ (r.2 = .suspended .releasing ∨ r.2 = .returned) := by
  unfold resumeClose at h
  simp only [Bool.false_eq_true, if_false] at h
  split at h
  · cases h
    exact hold_closeTransport s io hc hl
  · rename_i he
    split at h
    · cases h
      exact hold_closeTransport s io hc hl
    · cases h
      exact hold_closeTransport s io hc hl
    · rename_i hdrain
      cases h
      have ht := hd (Bool.eq_false_iff.mpr he) hdrain
      have hfail := hold_sendFailed ht
      have hl' : s.sendFailed.transport.closed = s.sendFailed.transport.connClosed :=
        ht.symm.trans hl
      rw [← hfail]
      exact hold_closeTransport s.sendFailed io hc hl'
    · cases h

/-! ## every safe step -/

theorem step_still (h : s'.hold = s.hold) : s.hold.Step s'.hold := by
  rw [h]
  exact .still

theorem step_enter (hok : s.hold.Ok) {i : InClose} (hi : s.phase i = none) {io : Io}
    (hd : s.closed = false → io.drain = .fails → s.transport.closed = true)
    (hno : s.closed = true → ∀ j, s.phase j ≠ some .quitting) {current : Option Caller}
    (h : s'.hold = after (s.close current io).1.hold i (s.close current io).2) :
    s.hold.Step s'.hold := by
  rw [h]
  cases hc : s.closed with
  | true =>
    rw [close_of_closed s current io hc]
    have hsame : Function.update s.hold.phase i none = s.hold.phase :=
      Function.update_eq_self_iff.mpr hi.symm
    show s.hold.Step { s.hold with returned := true, phase := Function.update s.hold.phase i none }
    rw [hsame]
    exact .again hc (hno hc)
  | false =>
    have hconn : s.transport.connClosed = false := (hok.opened hc).1
    have hopen : s.transport.closed = false := hok.lost.trans hconn
    rcases hold_close s current io hc hopen hconn (fun hf => by
      rw [hd hc hf] at hopen
      cases hopen) with ⟨d, h1, h2⟩ | ⟨h2, h1 | h1⟩
    · rw [h2, h1]
      exact .quit i hc
    · rw [h2, h1]
      exact .release i (Or.inl hc)
    · rw [h2, h1]
      exact .releaseReturn i (Or.inl hc)

theorem step_goOn (hok : s.hold.Ok) {i : InClose} {pc : ClosePc} (hi : s.phase i = some pc.phase)
    {q e : Bool} {io : Io} (hq : ∀ d, pc = .quitting d → q = false)
    (hd : ∀ d, pc = .quitting d → e = false → io.drain = .fails → s.transport.closed = true)
    {r : Conn × CloseResult} (hr : s.resumeClose q e io pc = some r)
    (h : s'.hold = after r.1.hold i r.2) : s.hold.Step s'.hold := by
  rw [h]
  cases pc with
  | quitting d =>
    rw [hq d rfl] at hr
    obtain ⟨h2, h1 | h1⟩ := hold_quitting (hok.closing i _ hi) hok.lost (hd d rfl) hr
    · rw [h2, h1]
      exact .release i (Or.inr hi)
    · rw [h2, h1]
      exact .releaseReturn i (Or.inr hi)
  | releasing =>
    unfold resumeClose at hr
    simp only [] at hr
    split at hr <;> cases hr
    · exact .cancelled i hi
    · exact .done i hi

theorem step_resume (hok : s.hold.Ok) {io : Io} (ha : ReleaseSafe s (.resume c io))
    (hs : Resumed cfg s c io s') : s.hold.Step s'.hold := by
  have hphase : ∀ {pc : ExecPc}, (s.execs c).pc = pc → s.phase (.inl c) = pc.phase :=
    fun h => congrArg ExecPc.phase h
  cases hs with
  | cancelLocking hpc => exact step_still (hold_finish (hphase hpc) _)
  | cancelSleeping hpc => exact step_still (hold_finish (hphase hpc) _)
  | retry hpc => exact step_still (hold_startAttempt (hphase hpc) _)
  | cancelSent _ hpc =>
    rcases hpc with hpc | ⟨d, hpc⟩
    · exact step_still (hold_finish (s := s.leave) (hphase hpc) _)
    · exact step_still (hold_finish (s := s.leave) (hphase hpc) _)
  | sendDone hpc hq =>
    refine step_still (hold_sendDone (hphase hpc) fun hf => ha.drain ?_)
    rw [← hf]
    exact .sending c io hpc hq
  | @timeout d hpc hq he =>
    refine step_enter hok (hphase hpc) (fun hc hf => ha.drain ?_)
      (ha.entered (.timeout c io d hpc hq he)) (hold_afterClose _ c _)
    rw [← hf]
    exact .timeout c io d hpc hq he hc
  | response hpc _ _ _ => exact step_still (hold_awaitFuture (hphase hpc))
  | @closing pc r hpc hr =>
    refine step_goOn hok (hphase hpc) (fun d e => ?_) (fun d e he hf => ha.drain ?_) hr
      (hold_afterClose r.1 c r.2)
    · by_contra hq
      exact ha.cancelled (.exec c io d (e ▸ hpc) (Bool.not_eq_false _ ▸ hq))
    · rw [← hf]
      exact .quitting c io d (e ▸ hpc) he

theorem hold_recvLine (line : Bytes) (hw : isErrorLine line = true → wellFormed line = true) :
    (s.recvLine line).hold = s.hold := by
  unfold recvLine
  simp only []
  split
  · rfl
  · split
    · rfl
    · split
      · rename_i herr
        cases hp : parseErrorLine line with
        | ok error => exact hold_settle _ _
        | error e =>
          have := hw herr
          rw [wellFormed, hp] at this
          cases this
      · rfl

theorem hold_keepalive (hk : (s.execs .keepalive).pc.free = false → s.keepaliveTask = .executing)
    (h : KeptAlive cfg s s') : s'.hold = s.hold := by
  obtain ⟨hidle, rfl | hround⟩ := h.round
  · rfl
  · cases hround with
    | ended _ => rfl
    | sleeps _ _ => rfl
    | issues _ _ =>
      exact hold_startExec (s := { s with keepaliveTask := .executing })
        (ExecPc.phase_of_free (hidle.free hk)) _

theorem hold_withFeed {fa : Feed.Act} {f : Feed} (hfa : fa ≠ .shutdown)
    (hf : s.toFeed.step fa = some f) : (s.withFeed f).hold = s.hold := by
  show ({ s.hold with closed := f.closed } : Hold InClose) = _
  rw [Feed.step_closed_eq hf hfa]
  rfl

/-- **A safe step is a step of the hold.** -/
theorem step_hold {a : Action} (hb : Base s) (hok : s.hold.Ok) (ha : ReleaseSafe s a)
    (hs : s.step cfg a = some s') : s.hold.Step s'.hold := by
  cases step_cases hs with
  | exec hfree => exact step_still (hold_startExec (ExecPc.phase_of_free hfree) _)
  | @acquire c drain hpc _ _ =>
    refine step_still (hold_execLine (congrArg ExecPc.phase hpc) fun hf hc => ha.drain ?_)
    rw [← hf]
    exact .line c drain hc
  | resume hr => exact step_resume hok ha hr
  | expire _ => exact step_still (hold_exec (congrArg ExecPc.phase (Exec.expire_pc _)))
  | expireQuit _ => exact step_still (hold_exec (congrArg ExecPc.phase (Exec.expire_pc _)))
  | cancel => exact step_still (hold_exec (congrArg ExecPc.phase (Exec.cancel_pc _)))
  | feed hfa hf => exact step_still (hold_withFeed (feedAct_ne_shutdown hfa) hf)
  | @close n io hfree =>
    have hnone : s.phase (.inr n) = none := Closer.phase_of_free hfree
    have hset : (s.setCloser n {}).hold = s.hold := hold_closer hnone.symm
    rw [← hset] at hok ⊢
    have hphase : (s.setCloser n {}).phase = s.phase := congrArg Hold.phase hset
    refine step_enter hok (by rw [hphase]; exact hnone) (fun hc hf => ha.drain ?_) (fun hc => ?_)
      (hold_closerAfter _ n _)
    · rw [← hf]
      exact .close n io hc
    · rw [hphase]
      exact ha.entered (.close n io) hc
  | @resumeClose n io pc r hpc hr =>
    refine step_goOn hok (i := .inr n) (congrArg CloserPc.phase hpc) (fun d e => ?_)
      (fun d e he hf => ha.drain ?_) hr (hold_closerAfter r.1 n r.2)
    · by_contra hq
      exact ha.cancelled (.closer n io d (e ▸ hpc) (Bool.not_eq_false _ ▸ hq))
    · rw [← hf]
      exact .closer n io d (e ▸ hpc) he
  | expireClose => exact step_still (hold_closer rfl)
  | cancelClose => exact step_still (hold_closer rfl)
  | keepalive hk => exact step_still (hold_keepalive hb.tasks.keepalive hk)
  | @recv line _ => exact step_still (hold_recvLine line (ha.crash line rfl))
  | eof _ => exact absurd rfl ha.eof
  | readError _ => exact absurd rfl ha.readError
  | recvStop _ => exact .still
  | tick _ => exact .still

variable {greeting : List Bytes}

theorem hold_started (cfg : Config) (greeting : List Bytes) : (started cfg greeting).hold.Ok where
  lost := rfl
  opened _ := ⟨rfl, rfl⟩
  returned := nofun
  held := nofun
  closing i p h := by cases i <;> cases h
  releasing i h := by cases i <;> cases h

theorem reach_hold (h : Sys.Reach (step cfg) ReleaseSafe (started cfg greeting) s) :
    Base s ∧ s.hold.Ok :=
  h.inv (I := fun s => Base s ∧ s.hold.Ok) ⟨base_started cfg greeting, hold_started cfg greeting⟩
    fun _ _ _ hi ha hs => ⟨step_base hi.1 hs, (step_hold hi.1 hi.2 ha hs).ok hi.2⟩

/-- once the connection is closed and some `close` returned, the transport is released -/
def Released (s : Conn) : Prop :=
  s.closed = true → s.closeReturned = true →
    s.transport.closed = true ∧ s.transport.connClosed = true

/-- **`close` releases the transport**, in every run of safe steps. -/
theorem release_on_every_path
    (h : Sys.Reach (step cfg) ReleaseSafe (started cfg greeting) s) : Released s := by
  intro _ hr
  obtain ⟨_, hok⟩ := reach_hold h
  have hreleased := hok.returned hr
  exact ⟨hok.lost.trans hreleased, hreleased⟩

def releaseCheck (s : Conn) : Action → Bool
  | .eof | .readError => false
  | .recv line => !isErrorLine line || wellFormed line
  | .acquire _ d => d != .fails
  | .resume c io =>
    io.drain != .fails && !(s.execs c).cancelReq && (!s.closed || (s.execs c).expired == false)
  | .close _ io => io.drain != .fails && !s.closed
  | .resumeClose n io => io.drain != .fails && !(s.closers n).cancelReq
  | _ => true

theorem releaseSafe_of_check (a : Action) (h : releaseCheck s a = true) : ReleaseSafe s a := by
  refine ⟨?_, ?_, ?_, fun hd => ?_, fun hq => ?_, fun he hc => ?_⟩
  · rintro rfl
    cases h
  · rintro rfl
    cases h
  · rintro line rfl hl
    simpa [releaseCheck, hl] using h
  · generalize hf : Drain.fails = d at hd
    cases hd <;> simp [releaseCheck, ← hf] at h
  · cases hq with
    | exec c io d hpc hq => simp [releaseCheck, hq] at h
    | closer n io d hpc hq => simp [releaseCheck, hq] at h
  · cases he with
    | close n io => simp [releaseCheck, hc] at h
    | timeout c io d hpc hq he => simp [releaseCheck, hc, he] at h

def timeoutRun : List Action :=
  [.exec 0 (lit "version") [] none [], .acquire (.task 0) .done, .tick 10, .expire (.task 0),
    .resume (.task 0) { drain := .suspends }, .resume (.task 0) {}]

theorem release_on_every_path_timeout :
    ∃ s, Sys.run (step {}) (started {} []) timeoutRun = some s ∧ s.closed = true ∧
      s.closeReturned = true ∧ Released s := by
  obtain ⟨s, hs, h⟩ := Sys.exists_reach_of_guard (step {}) ReleaseSafe releaseCheck
    (started {} []) timeoutRun (fun _ => releaseSafe_of_check) (by decide +kernel)
  exact ⟨s, hs, Sys.eq_of_run_map (f := fun s : Conn => s.closed) hs (by decide +kernel),
    Sys.eq_of_run_map (f := fun s : Conn => s.closeReturned) hs (by decide +kernel),
    release_on_every_path h⟩

/-- **The end of the stream leaks the transport**: `close` returns and never closes the SSH
connection. -/
theorem eof_leaks_transport :
    ∃ s, Sys.run (step {}) (started {} []) [.eof, .close 0 {}] = some s ∧
      Sys.Reach (step {}) anyStep (started {} []) s ∧ s.closed = true ∧ s.closeReturned = true ∧
      s.transport.connClosed = false ∧ ¬ Released s := by
  obtain ⟨s, hs, h⟩ := Sys.exists_reach (step {}) anyStep (started {} [])
    [.eof, .close 0 {}] (fun _ _ => trivial) (by decide +kernel)
  have hc : s.closed = true :=
    Sys.eq_of_run_map (f := fun s : Conn => s.closed) hs (by decide +kernel)
  have hr : s.closeReturned = true :=
    Sys.eq_of_run_map (f := fun s : Conn => s.closeReturned) hs (by decide +kernel)
  have hconn : s.transport.connClosed = false :=
    Sys.eq_of_run_map (f := fun s : Conn => s.transport.connClosed) hs (by decide +kernel)
  refine ⟨s, hs, h, hc, hr, hconn, fun hrel => ?_⟩
  rw [(hrel hc hr).2] at hconn
  cases hconn

end Conn
end Atsq
