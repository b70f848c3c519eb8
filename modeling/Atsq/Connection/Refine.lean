import Atsq.Connection.Session
import Atsq.Connection.Step
import Atsq.Connection.Delivery

/-!
# Every step of a connection is a few moves of its two sides

* `Conn.session`   the command side of a state;
* `Allowed P s a`  the action respects the policy;
* `step_moves`     a step is a sequence of moves of the command side.

Each method has its own lemma, and `step_moves` puts them together.
-/

namespace Atsq
open Py

namespace Conn

def session (s : Conn) : Session where
  closed := s.closed
  lost := s.transport.closed
  pending := s.pending
  cmdLock := s.cmdLock
  dataBuffer := s.dataBuffer
  execs := s.execs
  sent := s.sent
  received := s.received

theorem session_settle (s : Conn) (f : Future) : (s.settle f).session = s.session.settle f := by
  have hpending : s.session.pending = s.pending := rfl
  have hexecs : s.session.execs = s.execs := rfl
  unfold settle Session.settle
  rw [hpending, hexecs]
  cases s.pending with
  | none => rfl
  | some c =>
    simp only
    cases (s.execs c).future <;> rfl

/-! ## what the methods leave alone -/

theorem setExec_self (s : Conn) (c : Caller) (e : Exec) : (s.setExec c e).execs c = e :=
  Function.update_self ..

theorem exec_handOver (s : Conn) (c : Caller) (t : SshTransport) :
    (s.handOver c t).execs c = { s.execs c with
      pc := .sending, future := .pending, handed := true, expired := false } := setExec_self ..

theorem setExec_pc (s : Conn) (c : Caller) {e : Exec} (he : e.pc = (s.execs c).pc) (t : Caller) :
    ((s.setExec c e).execs t).pc = (s.execs t).pc := by
  by_cases h : t = c
  · rw [h, setExec_self, he]
  · exact congrArg Exec.pc (Function.update_of_ne h ..)

theorem settle_pc (s : Conn) (f : Future) (t : Caller) :
    ((s.settle f).execs t).pc = (s.execs t).pc := by
  unfold settle
  split
  · split
    · refine setExec_pc s _ ?_ t
      rfl
    · rfl
  · rfl

theorem cancelKeepalive_pc (s : Conn) (t : Caller) :
    (s.cancelKeepalive.execs t).pc = (s.execs t).pc := by
  unfold cancelKeepalive
  split
  · rfl
  · rfl
  · exact setExec_pc s _ (Exec.cancel_pc _) t

theorem cancelKeepalive_closed (s : Conn) : s.cancelKeepalive.closed = s.closed := by
  unfold cancelKeepalive
  split <;> rfl

theorem shutdown_pc (s : Conn) (t : Caller) : (s.shutdown.execs t).pc = (s.execs t).pc := by
  unfold shutdown
  split
  · rfl
  · rw [cancelKeepalive_pc]
    exact settle_pc s .exception t

theorem feed_shutdown_closed (f : Feed) : f.shutdown.closed = true := by
  unfold Feed.shutdown
  split
  · assumption
  · rfl

theorem shutdown_closed (s : Conn) : s.shutdown.closed = true := by
  unfold shutdown
  split
  · assumption
  · rw [cancelKeepalive_closed]
    exact feed_shutdown_closed s.toFeed

/-- `close` after its early return: everything up to the transport -/
def beginClose (s : Conn) (current : Option Caller) : Conn :=
  cancelRecv (if current = some .keepalive then s.shutdown else s.shutdown.cancelKeepalive)

theorem close_of_open (s : Conn) (current : Option Caller) (io : Io) (hc : s.closed = false) :
    s.close current io =
      if (s.beginClose current).transport.closed then (s.beginClose current).closeTransport io
      else (s.beginClose current).quit io := by
  unfold close
  rw [if_neg (by rw [hc]; decide)]
  rfl

theorem close_of_closed (s : Conn) (current : Option Caller) (io : Io) (hc : s.closed = true) :
    s.close current io = (s, .returned) := if_pos hc

theorem session_cancelRecv (s : Conn) : s.cancelRecv.session = s.session := rfl

theorem beginClose_pc (s : Conn) (current : Option Caller) (t : Caller) :
    ((s.beginClose current).execs t).pc = (s.execs t).pc := by
  have h : ∀ r : Conn, (r.cancelRecv.execs t).pc = (r.execs t).pc := fun r =>
    congrArg (fun v : Session => (v.execs t).pc) (session_cancelRecv r)
  unfold beginClose
  rw [h]
  split
  · exact shutdown_pc s t
  · rw [cancelKeepalive_pc]
    exact shutdown_pc s t

theorem beginClose_closed (s : Conn) (current : Option Caller) :
    (s.beginClose current).closed = true := by
  have h : ∀ r : Conn, r.cancelRecv.closed = r.closed := fun r =>
    congrArg Session.closed (session_cancelRecv r)
  unfold beginClose
  rw [h]
  split
  · exact shutdown_closed s
  · rw [cancelKeepalive_closed]
    exact shutdown_closed s

theorem closeTransport_frame (s : Conn) (io : Io) :
    (s.closeTransport io).1.execs = s.execs ∧ (s.closeTransport io).1.closed = s.closed := by
  unfold closeTransport
  split <;> exact ⟨rfl, rfl⟩

theorem quit_frame (s : Conn) (io : Io) :
    (s.quit io).1.execs = s.execs ∧ (s.quit io).1.closed = s.closed := by
  unfold quit
  split
  · exact closeTransport_frame s io
  · simp only []
    split
    · exact ⟨rfl, rfl⟩
    · exact closeTransport_frame _ io
    · exact closeTransport_frame _ io
    · exact closeTransport_frame _ io

theorem resumeClose_frame {s : Conn} {q e : Bool} {io : Io} {pc : ClosePc}
    {r : Conn × CloseResult} (h : s.resumeClose q e io pc = some r) :
    r.1.execs = s.execs ∧ r.1.closed = s.closed := by
  unfold resumeClose at h
  split at h
  · split at h
    · cases h; exact ⟨rfl, rfl⟩
    · split at h
      · cases h; exact closeTransport_frame s io
      · split at h
        · cases h; exact closeTransport_frame s io
        · cases h; exact closeTransport_frame s io
        · cases h; exact closeTransport_frame s.sendFailed io
        · cases h
  · split at h <;> cases h <;> exact ⟨rfl, rfl⟩

theorem close_closed (s : Conn) (current : Option Caller) (io : Io) :
    (s.close current io).1.closed = true := by
  cases hc : s.closed with
  | true => rw [close_of_closed s current io hc]; exact hc
  | false =>
    rw [close_of_open s current io hc]
    split
    · exact (closeTransport_frame _ io).2.trans (beginClose_closed s current)
    · exact (quit_frame _ io).2.trans (beginClose_closed s current)

theorem close_pc (s : Conn) (current : Option Caller) (io : Io) (t : Caller) :
    ((s.close current io).1.execs t).pc = (s.execs t).pc := by
  cases hc : s.closed with
  | true => rw [close_of_closed s current io hc]
  | false =>
    rw [close_of_open s current io hc]
    split
    · rw [(closeTransport_frame _ io).1]
      exact beginClose_pc s current t
    · rw [(quit_frame _ io).1]
      exact beginClose_pc s current t

/-! ## the moves of each method -/

section
variable {P : Policy} (hP : ∀ v : Session, v.closed = true → P.cancel v .keepalive)
open Session Relation

theorem moves_cancelKeepalive {s : Conn} (h : P.cancel s.session .keepalive) :
    Moves P s.session s.cancelKeepalive.session := by
  unfold cancelKeepalive
  split
  · exact .refl
  · exact .refl
  · exact .single (.cancel .keepalive h)

theorem session_shutdown_settle (s : Conn) :
    { s.failPending with toFeed := s.toFeed.shutdown }.session = s.session.shutdown := by
  unfold Session.shutdown
  rw [Session.settle_closed, ← session_settle]
  unfold session
  rw [feed_shutdown_closed]
  rfl

include hP

theorem moves_shutdown (s : Conn) : Moves P s.session s.shutdown.session := by
  unfold shutdown
  split
  · exact .refl
  · rename_i hc
    have hshut := session_shutdown_settle s
    refine .trans (.single ?_) (moves_cancelKeepalive (hP _ ?_))
    · rw [hshut]
      exact .shutdown (Bool.eq_false_iff.mpr hc)
    · exact feed_shutdown_closed s.toFeed

theorem moves_beginClose (s : Conn) (current : Option Caller) :
    Moves P s.session (s.beginClose current).session := by
  unfold beginClose
  rw [session_cancelRecv]
  split
  · exact moves_shutdown hP s
  · exact (moves_shutdown hP s).trans (moves_cancelKeepalive (hP _ (shutdown_closed s)))

omit hP

theorem moves_closeTransport (s : Conn) (io : Io) :
    Moves P s.session (s.closeTransport io).1.session := by
  unfold closeTransport
  split
  · exact .refl
  · rename_i hc
    have hlost : s.transport.close.closed = true := by
      unfold SshTransport.close
      rw [if_neg hc]
    refine .single ?_
    show Move P s.session { s.session with lost := s.transport.close.closed }
    rw [hlost]
    exact .lose

theorem sendLine_flags {t t' : SshTransport} {data : Bytes} (h : t.sendLine data = some t') :
    t.closed = false ∧ t'.closed = false ∧ t'.connClosed = t.connClosed := by
  unfold SshTransport.sendLine at h
  split at h
  · cases h
  · rename_i hc
    cases h
    exact ⟨Bool.eq_false_iff.mpr hc, Bool.eq_false_iff.mpr hc, rfl⟩

theorem moves_quit (s : Conn) (io : Io) : Moves P s.session (s.quit io).1.session := by
  unfold quit
  split
  · exact moves_closeTransport s io
  · rename_i t ht
    obtain ⟨h1, h2, _⟩ := sendLine_flags ht
    have hsame : { s with transport := t, quits := s.quits + 1 }.session = s.session := by
      show { s.session with lost := t.closed } = { s.session with lost := s.transport.closed }
      rw [h1, h2]
    simp only []
    split
    · rw [hsame]
    · rw [← hsame]
      exact moves_closeTransport _ io
    · rw [← hsame]
      exact moves_closeTransport _ io
    · rw [← hsame]
      have hlose : Session.Move P { s with transport := t, quits := s.quits + 1 }.session
          (sendFailed { s with transport := t, quits := s.quits + 1 }).session := .lose
      exact .trans (.single hlose) (moves_closeTransport _ io)

include hP in
theorem moves_close (s : Conn) (current : Option Caller) (io : Io) :
    Moves P s.session (s.close current io).1.session := by
  cases hc : s.closed with
  | true =>
    rw [close_of_closed s current io hc]
  | false =>
    rw [close_of_open s current io hc]
    refine (moves_beginClose hP s current).trans ?_
    split
    · exact moves_closeTransport _ io
    · exact moves_quit _ io

theorem moves_resumeClose {s : Conn} {q e : Bool} {io : Io} {pc : ClosePc}
    {r : Conn × CloseResult} (h : s.resumeClose q e io pc = some r) :
    Moves P s.session r.1.session := by
  unfold resumeClose at h
  split at h
  · split at h
    · cases h; exact .refl
    · split at h
      · cases h; exact moves_closeTransport s io
      · split at h
        · cases h; exact moves_closeTransport s io
        · cases h; exact moves_closeTransport s io
        · cases h
          have hlose := Move.lose (P := P) (v := s.session)
          exact .trans (.single hlose) (moves_closeTransport s.sendFailed io)
        · cases h
  · split at h <;> cases h <;> exact .refl

/-! ## the moves of `exec` -/

variable {cfg : Config} {s : Conn} {c : Caller}

theorem moves_startExec (hstart : P.start c) (hfree : (s.execs c).pc.free = true)
    (line : Except RenderError Bytes) : Moves P s.session (s.startExec cfg c line).session := by
  unfold startExec
  cases line with
  | error e => exact .single (.start c _ hstart hfree rfl rfl rfl)
  | ok line =>
    have hexec := setExec_self s c { line := line }
    refine .trans (.single (.start c { line := line } hstart hfree rfl rfl rfl)) ?_
    show Moves P (s.setExec c { line := line }).session
      (startAttempt cfg (s.setExec c { line := line }) c 0).session
    have hfree' : ((s.setExec c { line := line }).session.execs c).pc.free = true := by
      show ((s.setExec c { line := line }).execs c).pc.free = true
      rw [hexec]
      rfl
    unfold startAttempt
    split
    · refine .single (.start c _ hstart hfree' rfl ?_ ?_) <;> rw [hexec]
    · refine .single (.start c _ hstart hfree' rfl ?_ ?_) <;> rw [hexec]

section
variable (hgo : P.go c)
include hgo

theorem moves_finish (hc : (s.execs c).pc.critical = false) (hn : (s.execs c).pc.free = false)
    {o : Outcome} (ho : (ExecPc.finished o).plain = true) :
    Moves P s.session (s.finish c o).session := .single (.outside c _ hgo hc hn ho rfl rfl)

theorem moves_leave (hc : (s.execs c).pc.critical = true) {o : Outcome}
    (hwhy : Reason P s.session c (.finished o)) :
    Moves P s.session (s.leave.finish c o).session := .single (.leave c hgo hc hwhy)

theorem moves_startAttempt (hc : (s.execs c).pc.critical = false)
    (hn : (s.execs c).pc.free = false) (k : Nat) :
    Moves P s.session (s.startAttempt cfg c k).session := by
  unfold startAttempt
  split
  · exact .single (.outside c _ hgo hc hn rfl rfl rfl)
  · exact moves_finish hgo hc hn rfl

theorem moves_complete (hc : (s.execs c).pc.critical = true) {data : List Bytes}
    {error : ErrorLine} (hf : (s.execs c).future = .result data error) :
    Moves P s.session (s.complete cfg c data error).session := by
  unfold complete
  cases hok : error.ok with
  | true => exact .single (.complete c hgo hc hf (.rows hok))
  | false =>
    simp only []
    rw [if_neg (by decide)]
    split
    · exact .single (.complete c hgo hc hf (.retry _))
    · exact .single (.complete c hgo hc hf (.queryError hok))

theorem moves_awaitFuture (hc : (s.execs c).pc.critical = true)
    (hq : (s.execs c).cancelReq = false)
    (he : (s.execs c).pc = .sending ∨ (s.execs c).expired = false)
    (hp : (s.execs c).future = .pending → (s.execs c).pc = .sending) :
    Moves P s.session (s.awaitFuture cfg c).session := by
  unfold awaitFuture
  cases hf : (s.execs c).future with
  | pending => exact .single (.await c _ hgo (hp hf))
  | result data error => exact moves_complete hgo hc hf
  | exception => exact moves_leave hgo hc (.exception hf)
  | cancelled => exact moves_leave hgo hc (.stray hf hq he)

theorem moves_sendDone (hpc : (s.execs c).pc = .sending) (hq : (s.execs c).cancelReq = false)
    (drain : Drain) (hleave : drain = .raises → P.leave s.session c) :
    Moves P s.session (s.sendDone cfg c drain).session := by
  have hc : (s.execs c).pc.critical = true := by rw [hpc]; rfl
  cases drain with
  | suspends => exact .refl
  | done => exact moves_awaitFuture (s := s.touch) hgo hc hq (Or.inl hpc) fun _ => hpc
  | fails =>
    have hlose := Move.lose (P := P) (v := s.session)
    exact .trans (.single hlose) (moves_leave (s := s.sendFailed) hgo hc (.lost rfl))
  | raises => exact moves_leave hgo hc (.raised hpc (hleave rfl))

omit hgo in
theorem session_handOver {t : SshTransport} (ht : t.closed = s.transport.closed) :
    (s.handOver c t).session = s.session.handOver c := by
  show { s.session.handOver c with lost := t.closed } = s.session.handOver c
  rw [ht]
  rfl

theorem moves_execLine (hpc : (s.execs c).pc = .locking) (hlock : s.cmdLock = none)
    (hq : (s.execs c).cancelReq = false)
    (hsend : s.closed = false → s.transport.closed = false → P.send s.session c) (drain : Drain)
    (hleave : drain = .raises → s.closed = false → s.transport.closed = false →
      P.leave (s.session.handOver c) c) :
    Moves P s.session (s.execLine cfg c drain).session := by
  have hc : (s.execs c).pc.critical = false := by rw [hpc]; rfl
  have hn : (s.execs c).pc.free = false := by rw [hpc]; rfl
  unfold execLine
  split
  · exact moves_finish hgo hc hn rfl
  · rename_i hopen
    split
    · exact moves_finish hgo hc hn rfl
    · rename_i t ht
      obtain ⟨h1, h2, _⟩ := sendLine_flags ht
      have hopen := Bool.eq_false_iff.mpr hopen
      have hhand := Move.handOver (P := P) (v := s.session) c hgo (hsend hopen h1) hopen h1 hlock
        hpc hq
      have hsession := session_handOver (c := c) (h2.trans h1.symm)
      rw [← hsession] at hhand
      refine .trans (.single hhand) (moves_sendDone hgo ?_ ?_ drain fun hraises => ?_)
      · rw [exec_handOver]
      · rw [exec_handOver]
        exact hq
      · rw [hsession]
        exact hleave hraises hopen h1

theorem moves_afterClose (hc : (s.execs c).pc.critical = true) (hclosed : s.closed = true)
    (r : CloseResult) : Moves P s.session (s.afterClose c r).session := by
  cases r with
  | suspended pc => exact .single (.close c pc hgo hc hclosed)
  | returned =>
    exact moves_leave (s := { s with closeReturned := true }) hgo hc (.timeout hclosed)
  | cancelled => exact moves_leave hgo hc (.closing hclosed)

include hP in
theorem moves_timeout (hc : (s.execs c).pc.critical = true) (io : Io) :
    Moves P s.session ((s.close (some c) io).1.afterClose c (s.close (some c) io).2).session := by
  refine (moves_close hP s (some c) io).trans (moves_afterClose hgo ?_ (close_closed ..) _)
  rw [close_pc]
  exact hc

/-- the send of a caller raises an exception that `send_line` does not turn into
`ConnectionClosedError`, and the command side when it does -/
inductive SendRaises (s : Conn) : Action → Session → Caller → Prop where
  | later {c : Caller} {io : Io} : (s.execs c).pc = .sending → (s.execs c).cancelReq = false →
      io.drain = .raises → SendRaises s (.resume c io) s.session c
  | atOnce {c : Caller} : s.closed = false → s.transport.closed = false →
      SendRaises s (.acquire c .raises) (s.session.handOver c) c

/-- a caller leaves `_exec_line` without an answer, and the command side when it does: it was
cancelled while its line is on its way or its answer is, or its send raises -/
inductive LeavesEarly (s : Conn) : Action → Session → Caller → Prop where
  | cancelled {c : Caller} {io : Io} : (s.execs c).cancelReq = true →
      ((s.execs c).pc = .sending ∨ ∃ d, (s.execs c).pc = .awaiting d) →
      LeavesEarly s (.resume c io) s.session c
  | raises {a : Action} {v : Session} {c : Caller} : SendRaises s a v c → LeavesEarly s a v c

/-- no send raises such an exception -/
def SendsReturn (s : Conn) (a : Action) : Prop := ∀ v c, ¬ SendRaises s a v c

include hP in
theorem moves_resume {s' : Conn} (hi : s.session.Inv) {io : Io}
    (hleave : LeavesEarly s (.resume c io) s.session c → P.leave s.session c)
    (h : s.resume cfg c io = some s') : Moves P s.session s'.session := by
  cases resume_cases h with
  | cancelLocking hpc => exact moves_finish hgo (by rw [hpc]; rfl) (by rw [hpc]; rfl) rfl
  | cancelSleeping hpc => exact moves_finish hgo (by rw [hpc]; rfl) (by rw [hpc]; rfl) rfl
  | retry hpc => exact moves_startAttempt hgo (by rw [hpc]; rfl) (by rw [hpc]; rfl) _
  | cancelSent hq hpc =>
    have hc : (s.execs c).pc.critical = true := by
      rcases hpc with hpc | ⟨d, hpc⟩ <;> rw [hpc] <;> rfl
    exact moves_leave hgo hc (.cancelled hq (hleave (.cancelled hq hpc)))
  | sendDone hpc hq =>
    exact moves_sendDone hgo hpc hq io.drain fun hraises => hleave (.raises (.later hpc hq hraises))
  | timeout hpc _ _ => exact moves_timeout hP hgo (by rw [hpc]; rfl) io
  | response hpc hq he hf =>
    exact moves_awaitFuture hgo (by rw [hpc]; rfl) hq (Or.inr he) fun hp => absurd hp hf
  | @closing pc r hpc hr =>
    have hclosed : s.closed = true := by
      have hres := (hi.callers c).result
      change Session.ResultOk _ _ (s.execs c).pc at hres
      rw [hpc] at hres
      exact hres
    obtain ⟨hpcs, hcl⟩ := resumeClose_frame hr
    refine (moves_resumeClose hr).trans (moves_afterClose hgo ?_ (hcl.trans hclosed) r.2)
    rw [hpcs, hpc]
    rfl

end

/-! ## the moves of the background tasks -/

/-- a line, unless it is a terminator that is none -/
theorem session_recvLine (line : Bytes) (hw : isErrorLine line = true → wellFormed line = true) :
    (s.recvLine line).session = s.session.recv line := by
  unfold recvLine Session.recv
  simp only []
  split
  · rename_i hnil
    cases hnil
    rfl
  · rename_i hne
    cases hev : isEventLine line with
    | true =>
      have hd : isDataLine line = false := by
        unfold isDataLine
        rw [hev, Bool.not_true, Bool.and_false, Bool.false_and]
      rw [isErrorLine_of_isEventLine line hev, hd, if_pos rfl, if_neg (by decide),
        if_neg (by decide)]
      rfl
    | false =>
      cases herr : isErrorLine line with
      | true =>
        cases hp : parseErrorLine line with
        | ok error =>
          rw [if_neg (by decide), if_pos rfl, if_pos rfl]
          exact session_settle _ _
        | error e =>
          have := hw herr
          rw [wellFormed, hp] at this
          cases this
      | false =>
        have hd : isDataLine line = true := by
          unfold isDataLine
          rw [hev, herr, List.isEmpty_eq_false_iff.mpr hne]
          rfl
        rw [hd, if_neg (by decide), if_neg (by decide), if_neg (by decide), if_pos rfl]
        rfl

include hP in
theorem moves_recvLine (hopen : s.closed = false) {line : Bytes} (hr : P.recv s.session line) :
    Moves P s.session (s.recvLine line).session := by
  have hm := Move.recv (P := P) line hopen hr
  by_cases hw : isErrorLine line = true → wellFormed line = true
  · rw [session_recvLine line hw]
    exact .single hm
  · -- the receive loop crashes: a shutdown, which cancels the keepalive task too
    obtain ⟨herr, hwf⟩ := Classical.not_imp.mp hw
    have hev := isEventLine_of_isErrorLine line herr
    have hne := ne_nil_of_isErrorLine herr
    unfold Session.recv at hm
    rw [herr, if_pos rfl] at hm
    unfold recvLine
    simp only []
    rw [if_neg hne, hev, herr, if_neg (by decide), if_pos rfl]
    cases hp : parseErrorLine line with
    | ok error => exact absurd (by rw [wellFormed, hp]; rfl) hwf
    | error e =>
      rw [hp] at hm
      have hshut := session_shutdown_settle
        { s with received := s.received ++ [line], dataBuffer := [] }
      show Moves P s.session (shutdown
        { s with received := s.received ++ [line], dataBuffer := [] }).session
      unfold Conn.shutdown
      rw [if_neg (by rw [hopen]; decide)]
      refine .trans (.single ?_) (moves_cancelKeepalive (hP _ (feed_shutdown_closed _)))
      rw [hshut]
      exact hm

include hP in
theorem moves_recvCrash : Moves P s.session s.recvCrash.session := moves_shutdown hP s

include hP in
theorem moves_recvEof : Moves P s.session s.recvEof.session := by
  have hlose := Move.lose (P := P) (v := s.session)
  exact .trans (.single hlose) (moves_shutdown hP s.sendFailed)

theorem moves_keepalive {s' : Conn} (hstart : P.start .keepalive)
    (hk : (s.execs .keepalive).pc.free = false → s.keepaliveTask = .executing)
    (h : s.keepalive cfg = some s') : Moves P s.session s'.session := by
  obtain ⟨hidle, rfl | hround⟩ := (keepalive_cases h).round
  · exact .refl
  · cases hround with
    | ended _ => exact .refl
    | sleeps _ _ => exact .refl
    | issues _ _ =>
      exact moves_startExec (s := { s with keepaliveTask := .executing }) hstart (hidle.free hk) _

end

/-! ## every step -/

theorem session_withFeed {s : Conn} {fa : Feed.Act} {f : Feed} (hfa : fa ≠ .shutdown)
    (hf : s.toFeed.step fa = some f) : (s.withFeed f).session = s.session := by
  show { s.session with closed := f.closed } = s.session
  rw [Feed.step_closed_eq hf hfa]
  rfl

theorem session_closerAfter (s : Conn) (n : Nat) (r : CloseResult) :
    (s.closerAfter n r).session = s.session := by
  cases r <;> rfl

/-- the receive loop runs as long as the connection is open, the keepalive task waits for its own
call -/
structure Tasks (s : Conn) : Prop where
  recv : s.recvTask = .running ↔ s.closed = false
  keepalive : (s.execs .keepalive).pc.free = false → s.keepaliveTask = .executing

/-- the action respects the policy -/
structure Allowed (P : Policy) (s : Conn) (a : Action) : Prop where
  start : ∀ n cmd options blocks params, a = .exec n cmd options blocks params → P.start (.task n)
  acquire : ∀ c drain, a = .acquire c drain → P.go c
  send : ∀ c drain, a = .acquire c drain → s.closed = false → s.transport.closed = false →
    P.send s.session c
  resume : ∀ c io, a = .resume c io → P.go c
  startKeepalive : a = .keepalive → P.start .keepalive
  recv : ∀ line, a = .recv line → P.recv s.session line
  leave : ∀ v c, LeavesEarly s a v c → P.leave v c
  cancel : ∀ n, a = .cancel n → P.cancel s.session (.task n)
  cancelKeepalive : ∀ v : Session, v.closed = true → P.cancel v .keepalive

/-- **A step is a sequence of moves.** -/
theorem step_moves {P : Policy} {cfg : Config} {s s' : Conn} {a : Action} (hi : s.session.Inv)
    (ht : Tasks s) (ha : Allowed P s a) (hs : s.step cfg a = some s') :
    Session.Moves P s.session s'.session := by
  have hP := ha.cancelKeepalive
  cases step_cases hs with
  | exec hfree => exact moves_startExec (ha.start _ _ _ _ _ rfl) hfree _
  | @acquire c drain hpc hlock hq =>
    refine moves_execLine (ha.acquire c drain rfl) hpc hlock hq (ha.send c drain rfl) drain ?_
    rintro rfl hopen hup
    exact ha.leave _ c (.raises (.atOnce hopen hup))
  | @resume c io _ _ => exact moves_resume hP (ha.resume c io rfl) hi (ha.leave _ c) hs
  | expire hpc => exact .single (.expire _ hpc)
  | expireQuit hpc => exact .single (.expireClose _ hpc)
  | cancel => exact .single (.cancel _ (ha.cancel _ rfl))
  | feed hfa hf => rw [session_withFeed (feedAct_ne_shutdown hfa) hf]
  | @close n io _ =>
    unfold closeCall
    rw [session_closerAfter]
    exact moves_close hP (s.setCloser n {}) none io
  | resumeClose _ hr =>
    rw [session_closerAfter]
    exact moves_resumeClose hr
  | expireClose => exact .refl
  | cancelClose => exact .refl
  | keepalive _ => exact moves_keepalive (ha.startKeepalive rfl) ht.keepalive hs
  | @recv line hrun => exact moves_recvLine hP (ht.recv.mp hrun) (ha.recv line rfl)
  | eof _ => exact moves_recvEof hP
  | readError _ => exact moves_recvCrash hP
  | recvStop _ => exact .refl
  | tick _ => exact .refl

end Conn
end Atsq
