import Atsq.Connection.Frame

/-!
# Two connections side by side

* `Twin s t`   the two states differ in what they have buffered and received only, and the rows of
               what is buffered are the same while a command is in flight.

Main result: `step_twin`, the same action on two such states gives two such states.
-/

namespace Atsq
open Py

/-- the same, as far as a caller can tell -/
inductive Future.Same : Future → Future → Prop where
  | refl (f : Future) : Future.Same f f
  | result {data data' : List Bytes} {error : ErrorLine} :
      parseDataBlock data = parseDataBlock data' →
      Future.Same (.result data error) (.result data' error)

def Exec.Same (e e' : Exec) : Prop := ∃ f, e' = { e with future := f } ∧ Future.Same e.future f

theorem Exec.Same.refl (e : Exec) : Exec.Same e e := ⟨e.future, rfl, .refl _⟩

theorem Future.Same.pending_iff {f f' : Future} (h : Future.Same f f') :
    f = .pending ↔ f' = .pending := by
  cases h with
  | refl => exact Iff.rfl
  | result => exact ⟨nofun, nofun⟩

theorem Exec.Same.interrupt {e e' : Exec} (h : Exec.Same e e') :
    Exec.Same e.interrupt e'.interrupt := by
  obtain ⟨f, rfl, hf⟩ := h
  generalize hfut : e.future = g at hf
  cases hf with
  | refl =>
    cases hfut
    exact .refl _
  | @result data data' error hd =>
    -- a future that is set is not interrupted
    have h1 : e.interrupt = e := by
      unfold Exec.interrupt
      rw [hfut]
      cases e.pc <;> rfl
    have h2 : ({ e with future := .result data' error } : Exec).interrupt
        = { e with future := .result data' error } := by
      unfold Exec.interrupt
      cases e.pc <;> rfl
    rw [h1, h2]
    exact ⟨_, rfl, by rw [hfut]; exact .result hd⟩

theorem Exec.interrupt_pending {e : Exec} (h : e.interrupt.future = .pending) :
    e.future = .pending := by
  unfold Exec.interrupt at h
  split at h
  · cases h
  · exact h

namespace Conn

/-- a command has been handed over and its future is not set -/
def InFlight (s : Conn) : Prop := ∃ c, s.pending = some c ∧ (s.execs c).future = .pending

def swap (s : Conn) (buffer received : List Bytes) (sent : List Sent) (execs : Caller → Exec) :
    Conn :=
  { s with dataBuffer := buffer, received := received, sent := sent, execs := execs }

def Twin (s t : Conn) : Prop :=
  ∃ buffer received sent execs, t = s.swap buffer received sent execs ∧
    (∀ c, Exec.Same (s.execs c) (execs c)) ∧
    (s.InFlight → parseDataBlock s.dataBuffer = parseDataBlock buffer)

theorem Twin.refl (s : Conn) : Twin s s := ⟨_, _, _, _, rfl, fun _ => .refl _, fun _ => rfl⟩

/-- two segments of `close` -/
def TwinClose (r r' : Conn × CloseResult) : Prop := Twin r.1 r'.1 ∧ r.2 = r'.2

variable {cfg : Config} {s t : Conn} {c : Caller}

theorem Twin.setExec (h : Twin s t) {e e' : Exec} (he : Exec.Same e e')
    (hf : s.pending = some c → e.future = .pending → (s.execs c).future = .pending) :
    Twin (s.setExec c e) (t.setExec c e') := by
  obtain ⟨buffer, received, sent, execs, rfl, hexecs, hbuffer⟩ := h
  refine ⟨buffer, received, sent, Function.update execs c e', rfl, fun u => ?_, fun hin => ?_⟩
  · show Exec.Same (Function.update s.execs c e u) (Function.update execs c e' u)
    by_cases hu : u = c
    · rw [hu, Function.update_self, Function.update_self]
      exact he
    · rw [Function.update_of_ne hu, Function.update_of_ne hu]
      exact hexecs u
  · obtain ⟨u, hp, hpending⟩ := hin
    refine hbuffer ⟨u, hp, ?_⟩
    by_cases hu : u = c
    · rw [hu, setExec_self] at hpending
      rw [hu] at hp ⊢
      exact hf hp hpending
    · exact (congrArg Exec.future (Function.update_of_ne hu ..)).symm.trans hpending

theorem Twin.same (h : Twin s t) (c : Caller) : Exec.Same (s.execs c) (t.execs c) := by
  obtain ⟨_, _, _, _, rfl, hexecs, _⟩ := h
  exact hexecs c

theorem Twin.pc (h : Twin s t) (c : Caller) : (t.execs c).pc = (s.execs c).pc := by
  obtain ⟨f, hf, _⟩ := h.same c
  rw [hf]

theorem Twin.now (h : Twin s t) : t.now = s.now := by
  obtain ⟨_, _, _, _, rfl, _, _⟩ := h
  rfl

theorem Twin.finish (h : Twin s t) (o : Outcome) : Twin (s.finish c o) (t.finish c o) := by
  obtain ⟨f, hf, hsame⟩ := h.same c
  refine h.setExec ?_ fun _ => id
  rw [hf]
  exact ⟨f, rfl, hsame⟩

theorem Twin.touch (h : Twin s t) : Twin s.touch t.touch := by
  obtain ⟨buffer, received, sent, execs, rfl, hexecs, hbuffer⟩ := h
  exact ⟨buffer, received, sent, execs, rfl, hexecs, hbuffer⟩

theorem Twin.sendFailed (h : Twin s t) : Twin s.sendFailed t.sendFailed := by
  obtain ⟨buffer, received, sent, execs, rfl, hexecs, hbuffer⟩ := h
  exact ⟨buffer, received, sent, execs, rfl, hexecs, hbuffer⟩

theorem Twin.leave (h : Twin s t) : Twin s.leave t.leave := by
  obtain ⟨buffer, received, sent, execs, rfl, hexecs, _⟩ := h
  exact ⟨buffer, received, sent, execs, rfl, hexecs, fun ⟨_, hp, _⟩ => nomatch hp⟩

theorem Twin.cancelExec (h : Twin s t) : Twin (s.cancelExec c) (t.cancelExec c) := by
  refine h.setExec ?_ fun _ => Exec.interrupt_pending
  obtain ⟨f, hf, hsame⟩ := (h.same c).interrupt
  unfold Exec.cancel
  rw [hf]
  exact ⟨f, rfl, hsame⟩

theorem Twin.expireExec (h : Twin s t) :
    Twin (s.setExec c (s.execs c).expire) (t.setExec c (t.execs c).expire) := by
  refine h.setExec ?_ fun _ => Exec.interrupt_pending
  obtain ⟨f, hf, hsame⟩ := (h.same c).interrupt
  unfold Exec.expire
  rw [hf]
  exact ⟨f, rfl, hsame⟩

theorem Twin.cancelKeepalive (h : Twin s t) : Twin s.cancelKeepalive t.cancelKeepalive := by
  have hk : t.keepaliveTask = s.keepaliveTask := by
    obtain ⟨_, _, _, _, rfl, _, _⟩ := h
    rfl
  unfold Conn.cancelKeepalive
  rw [hk]
  cases s.keepaliveTask with
  | absent => exact h
  | ended => exact h
  | _ => exact h.cancelExec

theorem Twin.settle (h : Twin s t) {f f' : Future} (hf : s.InFlight → Future.Same f f')
    (hne : f ≠ .pending) : Twin (s.settle f) (t.settle f') := by
  have hp : t.pending = s.pending := by
    obtain ⟨_, _, _, _, rfl, _, _⟩ := h
    rfl
  unfold Conn.settle
  rw [hp]
  cases hpending : s.pending with
  | none => exact h
  | some c =>
    obtain ⟨g, hg, hsame⟩ := h.same c
    have hfut : (t.execs c).future = g := by rw [hg]
    by_cases hin : (s.execs c).future = .pending
    · have hin' : (t.execs c).future = .pending := hfut.trans (hsame.pending_iff.mp hin)
      simp only [hin, hin']
      refine h.setExec ?_ fun _ he => absurd he hne
      rw [hg]
      exact ⟨f', rfl, hf ⟨c, hpending, hin⟩⟩
    · have hin' : (t.execs c).future ≠ .pending := fun e =>
        hin (hsame.pending_iff.mpr (hfut.symm.trans e))
      simp only []
      exact h

theorem Twin.feed (h : Twin s t) : t.toFeed = s.toFeed := by
  obtain ⟨_, _, _, _, rfl, _, _⟩ := h
  rfl

theorem Twin.withFeed (h : Twin s t) (f : Feed) : Twin (s.withFeed f) (t.withFeed f) := by
  obtain ⟨buffer, received, sent, execs, rfl, hexecs, hbuffer⟩ := h
  exact ⟨buffer, received, sent, execs, rfl, hexecs, hbuffer⟩

theorem Twin.shutdown (h : Twin s t) : Twin s.shutdown t.shutdown := by
  have hc : t.closed = s.closed := congrArg Feed.closed h.feed
  unfold Conn.shutdown
  rw [hc]
  split
  · exact h
  · rw [h.feed]
    exact ((h.settle (fun _ => .refl .exception) nofun).withFeed s.toFeed.shutdown).cancelKeepalive

/-! ## `close` -/

theorem Twin.closeTransport (h : Twin s t) (io : Io) :
    TwinClose (s.closeTransport io) (t.closeTransport io) := by
  obtain ⟨buffer, received, sent, execs, rfl, hexecs, hbuffer⟩ := h
  have hclosed : (s.swap buffer received sent execs).transport.closed = s.transport.closed := rfl
  unfold Conn.closeTransport
  rw [hclosed]
  split <;> exact ⟨⟨buffer, received, sent, execs, rfl, hexecs, hbuffer⟩, rfl⟩

theorem Twin.quit (h : Twin s t) (io : Io) : TwinClose (s.quit io) (t.quit io) := by
  obtain ⟨buffer, received, sent, execs, rfl, hexecs, hbuffer⟩ := h
  have htransport : (s.swap buffer received sent execs).transport = s.transport := rfl
  have htwin : Twin s (s.swap buffer received sent execs) :=
    ⟨buffer, received, sent, execs, rfl, hexecs, hbuffer⟩
  unfold Conn.quit
  rw [htransport]
  cases s.transport.sendLine (ascii "quit") with
  | none => exact htwin.closeTransport io
  | some tr =>
    have hquit : Twin { s with transport := tr, quits := s.quits + 1 }
        { s.swap buffer received sent execs with transport := tr, quits := s.quits + 1 } :=
      ⟨buffer, received, sent, execs, rfl, hexecs, hbuffer⟩
    simp only []
    cases io.drain with
    | suspends => exact ⟨hquit, rfl⟩
    | done => exact hquit.closeTransport io
    | fails => exact hquit.sendFailed.closeTransport io
    | raises => exact hquit.closeTransport io

theorem Twin.cancelRecv (h : Twin s t) : Twin s.cancelRecv t.cancelRecv := by
  obtain ⟨buffer, received, sent, execs, rfl, hexecs, hbuffer⟩ := h
  exact ⟨buffer, received, sent, execs, rfl, hexecs, hbuffer⟩

theorem Twin.transport (h : Twin s t) : t.transport = s.transport := by
  obtain ⟨_, _, _, _, rfl, _, _⟩ := h
  rfl

theorem Twin.close (h : Twin s t) (current : Option Caller) (io : Io) :
    TwinClose (s.close current io) (t.close current io) := by
  have hc : t.closed = s.closed := congrArg Feed.closed h.feed
  have hbegin : Twin (s.beginClose current) (t.beginClose current) := by
    unfold Conn.beginClose
    split
    · exact h.shutdown.cancelRecv
    · exact h.shutdown.cancelKeepalive.cancelRecv
  cases hclosed : s.closed with
  | true =>
    rw [close_of_closed s current io hclosed, close_of_closed t current io (hc.trans hclosed)]
    exact ⟨h, rfl⟩
  | false =>
    rw [close_of_open s current io hclosed, close_of_open t current io (hc.trans hclosed),
      hbegin.transport]
    split
    · exact hbegin.closeTransport io
    · exact hbegin.quit io

theorem Twin.resumeClose (h : Twin s t) (q e : Bool) (io : Io) (pc : ClosePc) :
    Option.Rel TwinClose (s.resumeClose q e io pc) (t.resumeClose q e io pc) := by
  unfold Conn.resumeClose
  cases pc with
  | quitting d =>
    simp only []
    split
    · exact .some ⟨h, rfl⟩
    · split
      · exact .some (h.closeTransport io)
      · cases io.drain with
        | done => exact .some (h.closeTransport io)
        | fails => exact .some (h.sendFailed.closeTransport io)
        | raises => exact .some (h.closeTransport io)
        | suspends => exact .none
  | releasing =>
    simp only []
    split <;> exact .some ⟨h, rfl⟩

/-! ## `exec` -/

theorem Twin.startAttempt (h : Twin s t) (k : Nat) :
    Twin (s.startAttempt cfg c k) (t.startAttempt cfg c k) := by
  obtain ⟨f, hf, hsame⟩ := h.same c
  unfold Conn.startAttempt
  split
  · refine h.setExec ?_ fun _ => id
    rw [hf]
    exact ⟨f, rfl, hsame⟩
  · exact h.finish _

theorem Twin.startExec (h : Twin s t) (hp : s.pending ≠ some c)
    (line : Except RenderError Bytes) : Twin (s.startExec cfg c line) (t.startExec cfg c line) := by
  unfold Conn.startExec
  cases line with
  | error e => exact h.setExec (.refl _) fun hc => absurd hc hp
  | ok line => exact (h.setExec (.refl _) fun hc => absurd hc hp).startAttempt 0

theorem Twin.complete (h : Twin s t) {data data' : List Bytes}
    (hd : parseDataBlock data = parseDataBlock data') (error : ErrorLine) :
    Twin (s.complete cfg c data error) (t.complete cfg c data' error) := by
  have hleave := h.leave.touch
  obtain ⟨f, hf, hsame⟩ := hleave.same c
  have hattempt : (t.leave.touch.execs c).attempt = (s.leave.touch.execs c).attempt := by rw [hf]
  unfold Conn.complete
  simp only []
  rw [hd, hattempt]
  split
  · exact hleave.finish _
  · split
    · rw [hleave.now]
      refine hleave.setExec ?_ fun _ => id
      rw [hf]
      exact ⟨f, rfl, hsame⟩
    · exact hleave.finish _

theorem Twin.awaitFuture (h : Twin s t) : Twin (s.awaitFuture cfg c) (t.awaitFuture cfg c) := by
  obtain ⟨f, hf, hsame⟩ := h.same c
  have hfut : (t.execs c).future = f := by rw [hf]
  unfold Conn.awaitFuture
  rw [hfut]
  cases hfs : (s.execs c).future with
  | pending =>
    rw [hfs] at hsame
    cases hsame
    rw [h.now]
    refine h.setExec ?_ fun _ => id
    rw [hf]
    exact ⟨_, rfl, by rw [hfs]; exact .refl _⟩
  | result data error =>
    rw [hfs] at hsame
    cases hsame with
    | refl => exact h.complete rfl error
    | result hd => exact h.complete hd error
  | exception =>
    rw [hfs] at hsame
    cases hsame
    exact h.leave.finish _
  | cancelled =>
    rw [hfs] at hsame
    cases hsame
    exact h.leave.finish _

theorem Twin.sendDone (h : Twin s t) (drain : Drain) :
    Twin (s.sendDone cfg c drain) (t.sendDone cfg c drain) := by
  cases drain with
  | suspends => exact h
  | done => exact h.touch.awaitFuture
  | fails => exact h.sendFailed.leave.finish _
  | raises => exact h.leave.finish _

theorem Twin.handOver (h : Twin s t) (tr : SshTransport)
    (hbuffer : parseDataBlock s.dataBuffer = parseDataBlock t.dataBuffer) :
    Twin (s.handOver c tr) (t.handOver c tr) := by
  obtain ⟨f, hf, _⟩ := h.same c
  obtain ⟨buffer, received, sent, execs, rfl, hexecs, _⟩ := h
  refine ⟨buffer, received, _, Function.update execs c _, rfl, fun u => ?_, fun _ => hbuffer⟩
  show Exec.Same (Function.update s.execs c _ u) (Function.update execs c _ u)
  by_cases hu : u = c
  · rw [hu, Function.update_self, Function.update_self]
    rw [hf]
    exact ⟨_, rfl, .refl _⟩
  · rw [Function.update_of_ne hu, Function.update_of_ne hu]
    exact hexecs u

theorem Twin.execLine (h : Twin s t) (drain : Drain)
    (hbuffer : s.closed = false → s.transport.closed = false →
      parseDataBlock s.dataBuffer = parseDataBlock t.dataBuffer) :
    Twin (s.execLine cfg c drain) (t.execLine cfg c drain) := by
  obtain ⟨f, hf, _⟩ := h.same c
  have hline : (t.execs c).line = (s.execs c).line := by rw [hf]
  have hc : t.closed = s.closed := congrArg Feed.closed h.feed
  unfold Conn.execLine
  rw [hc, h.transport, hline]
  split
  · exact h.finish _
  · rename_i hopen
    cases htr : s.transport.sendLine (s.execs c).line with
    | none => exact h.finish _
    | some tr =>
      exact (h.handOver tr (hbuffer (Bool.eq_false_iff.mpr hopen) (sendLine_flags htr).1)).sendDone
        drain

theorem Twin.afterClose {r r' : Conn × CloseResult} (h : TwinClose r r') :
    Twin (r.1.afterClose c r.2) (r'.1.afterClose c r'.2) := by
  obtain ⟨h, hres⟩ := h
  rw [← hres]
  cases r.2 with
  | suspended pc =>
    obtain ⟨f, hf, hsame⟩ := h.same c
    refine h.setExec ?_ fun _ => id
    rw [hf]
    exact ⟨f, rfl, hsame⟩
  | returned =>
    have hclose : Twin { r.1 with closeReturned := true } { r'.1 with closeReturned := true } := by
      obtain ⟨buffer, received, sent, execs, hr, hexecs, hbuffer⟩ := h
      rw [hr]
      exact ⟨buffer, received, sent, execs, rfl, hexecs, hbuffer⟩
    exact hclose.leave.finish _
  | cancelled => exact h.leave.finish _

theorem rel_map {r r' : Option (Conn × CloseResult)} {f f' : Conn × CloseResult → Conn}
    (h : Option.Rel TwinClose r r') (hf : ∀ r r', TwinClose r r' → Twin (f r) (f' r')) :
    Option.Rel Twin (r.map f) (r'.map f') := by
  cases h with
  | some h => exact .some (hf _ _ h)
  | none => exact .none

theorem Twin.resume (h : Twin s t) (io : Io) :
    Option.Rel Twin (s.resume cfg c io) (t.resume cfg c io) := by
  obtain ⟨f, hf, hsame⟩ := h.same c
  have hpending : (t.execs c).future = .pending ↔ (s.execs c).future = .pending := by
    rw [hf]
    exact hsame.pending_iff.symm
  have hq : (t.execs c).cancelReq = (s.execs c).cancelReq := by rw [hf]
  have he : (t.execs c).expired = (s.execs c).expired := by rw [hf]
  have hk : (t.execs c).attempt = (s.execs c).attempt := by rw [hf]
  unfold Conn.resume
  simp only [h.pc c, hq, he, hk, hpending, h.now]
  cases (s.execs c).pc with
  | idle => exact .none
  | finished o => exact .none
  | locking =>
    simp only []
    split
    · exact .some (h.finish _)
    · exact .none
  | sleeping wake =>
    simp only []
    split
    · exact .some (h.finish _)
    · split
      · exact .some (h.startAttempt _)
      · exact .none
  | sending =>
    simp only []
    split
    · exact .some (h.leave.finish _)
    · split
      · exact .none
      · exact .some (h.sendDone _)
  | awaiting d =>
    simp only []
    split
    · exact .some (h.leave.finish _)
    · split
      · exact .some (Twin.afterClose (h.close (some c) io))
      · split
        · exact .none
        · exact .some h.awaitFuture
  | closing pc => exact rel_map (h.resumeClose _ _ io pc) fun _ _ => Twin.afterClose

theorem Twin.expire (h : Twin s t) : Option.Rel Twin (s.expire c) (t.expire c) := by
  unfold Conn.expire
  simp only [h.pc c, h.now]
  split
  · split
    · exact .some h.expireExec
    · exact .none
  · split
    · exact .some h.expireExec
    · exact .none
  · exact .none

/-! ## the users' `close` calls and the background tasks -/

theorem Twin.closers (h : Twin s t) : t.closers = s.closers := by
  obtain ⟨_, _, _, _, rfl, _, _⟩ := h
  rfl

theorem Twin.setCloser (h : Twin s t) (n : Nat) (e : Closer) :
    Twin (s.setCloser n e) (t.setCloser n e) := by
  obtain ⟨buffer, received, sent, execs, rfl, hexecs, hbuffer⟩ := h
  exact ⟨buffer, received, sent, execs, rfl, hexecs, hbuffer⟩

theorem Twin.closerAfter {n : Nat} {r r' : Conn × CloseResult} (h : TwinClose r r') :
    Twin (r.1.closerAfter n r.2) (r'.1.closerAfter n r'.2) := by
  obtain ⟨h, hres⟩ := h
  rw [← hres]
  cases r.2 with
  | suspended pc =>
    unfold Conn.closerAfter
    rw [h.closers]
    exact h.setCloser n _
  | returned =>
    have hclose : Twin { r.1 with closeReturned := true } { r'.1 with closeReturned := true } := by
      obtain ⟨buffer, received, sent, execs, hr, hexecs, hbuffer⟩ := h
      rw [hr]
      exact ⟨buffer, received, sent, execs, rfl, hexecs, hbuffer⟩
    exact hclose.setCloser n _
  | cancelled => exact h.setCloser n _

theorem Twin.keepaliveTask (h : Twin s t) : t.keepaliveTask = s.keepaliveTask := by
  obtain ⟨_, _, _, _, rfl, _, _⟩ := h
  rfl

theorem Twin.setKeepalive (h : Twin s t) (k : KeepaliveTask) :
    Twin { s with keepaliveTask := k } { t with keepaliveTask := k } := by
  obtain ⟨buffer, received, sent, execs, rfl, hexecs, hbuffer⟩ := h
  exact ⟨buffer, received, sent, execs, rfl, hexecs, hbuffer⟩

theorem Twin.keepaliveLoop (h : Twin s t) (hp : s.pending ≠ some .keepalive) :
    Twin (s.keepaliveLoop cfg) (t.keepaliveLoop cfg) := by
  have htwin := h
  obtain ⟨buffer, received, sent, execs, rfl, _, _⟩ := h
  have hclosed : (s.swap buffer received sent execs).closed = s.closed := rfl
  have hlast : (s.swap buffer received sent execs).lastActivity = s.lastActivity := rfl
  have hnow : (s.swap buffer received sent execs).now = s.now := rfl
  unfold Conn.keepaliveLoop
  simp only [hclosed, hlast, hnow]
  split
  · exact htwin.setKeepalive _
  · split
    · exact htwin.setKeepalive _
    · exact (htwin.setKeepalive .executing).startExec hp _

theorem Twin.keepalive (h : Twin s t)
    (hp : (s.execs .keepalive).pc.critical = false → s.pending ≠ some .keepalive)
    (hk : (s.execs .keepalive).pc.free = false → s.keepaliveTask = .executing) :
    Option.Rel Twin (s.keepalive cfg) (t.keepalive cfg) := by
  obtain ⟨f, hf, _⟩ := h.same .keepalive
  have hq : (t.execs .keepalive).cancelReq = (s.execs .keepalive).cancelReq := by rw [hf]
  have hfree : s.keepaliveTask ≠ .executing → s.pending ≠ some .keepalive := fun hne => by
    refine hp (ExecPc.critical_of_free ?_)
    by_contra hn
    exact hne (hk (Bool.eq_false_iff.mpr hn))
  have hwake : ∀ wake : ℚ, wake ≤ t.now ↔ wake ≤ s.now := fun wake => by rw [h.now]
  unfold Conn.keepalive
  simp only [h.keepaliveTask, hq, h.pc, hwake]
  cases htask : s.keepaliveTask with
  | absent => exact .none
  | ended => exact .none
  | ready =>
    simp only []
    split
    · exact .some (h.setKeepalive _)
    · exact .some (h.keepaliveLoop (hfree (by rw [htask]; exact KeepaliveTask.noConfusion)))
  | sleeping wake =>
    simp only []
    split
    · exact .some (h.setKeepalive _)
    · split
      · exact .some (h.keepaliveLoop (hfree (by rw [htask]; exact KeepaliveTask.noConfusion)))
      · exact .none
  | executing =>
    simp only []
    split
    · rename_i hpc
      exact .some (h.keepaliveLoop (hp (by rw [hpc]; rfl)))
    · exact .some (h.setKeepalive _)
    · exact .none

theorem Twin.push (h : Twin s t) (line : Bytes) {b b' : List Bytes}
    (hb : s.InFlight → parseDataBlock b = parseDataBlock b') :
    Twin { s with received := s.received ++ [line], dataBuffer := b }
      { t with received := t.received ++ [line], dataBuffer := b' } := by
  obtain ⟨buffer, received, sent, execs, rfl, hexecs, _⟩ := h
  exact ⟨b', received ++ [line], sent, execs, rfl, hexecs, hb⟩

theorem Twin.buffer (h : Twin s t) (hin : s.InFlight) :
    parseDataBlock s.dataBuffer = parseDataBlock t.dataBuffer := by
  obtain ⟨_, _, _, _, rfl, _, hbuffer⟩ := h
  exact hbuffer hin

theorem Twin.setRecv (h : Twin s t) (r : RecvTask) :
    Twin { s with recvTask := r } { t with recvTask := r } := by
  obtain ⟨buffer, received, sent, execs, rfl, hexecs, hbuffer⟩ := h
  exact ⟨buffer, received, sent, execs, rfl, hexecs, hbuffer⟩

theorem Twin.recvLine (h : Twin s t) (line : Bytes) : Twin (s.recvLine line) (t.recvLine line) := by
  have hpush := h.push line h.buffer
  unfold Conn.recvLine
  simp only []
  split
  · exact hpush
  · split
    · rw [h.feed]
      exact hpush.withFeed (s.toFeed.publishEvent (Event.fromLine line))
    · split
      · cases parseErrorLine line with
        | ok error =>
          refine (h.push line fun _ => rfl).settle (fun hin => ?_) nofun
          exact .result (h.buffer hin)
        | error e => exact (h.push line fun _ => rfl).shutdown.setRecv .ended
      · refine h.push line fun hin => ?_
        rw [parseDataBlock_append, parseDataBlock_append, h.buffer hin]

/-! ## every step -/

/-- **The same action keeps two connections side by side**, if at a hand-over the rows of what they
have buffered are the same. -/
theorem step_twin (cfg : Config) (a : Action) (hb : Base s) (h : Twin s t)
    (ha : ∀ c drain, a = .acquire c drain → s.closed = false → s.transport.closed = false →
      parseDataBlock s.dataBuffer = parseDataBlock t.dataBuffer) :
    Option.Rel Twin (s.step cfg a) (t.step cfg a) := by
  have hpending : ∀ c, (s.execs c).pc.critical = false → s.pending ≠ some c := by
    intro c hc hp
    have hcrit := (hb.session.callers c).holder.mpr (hb.session.lock.symm.trans hp)
    rw [show (s.execs c).pc.critical = true from hcrit] at hc
    cases hc
  have hfeed : ∀ o : Option Feed, Option.Rel Twin (o.map s.withFeed) (o.map t.withFeed) := by
    intro o
    cases o with
    | none => exact .none
    | some f => exact .some (h.withFeed f)
  have hclosing : ∀ {n : Nat} {q e : Bool} {io : Io} {pc : ClosePc},
      Option.Rel Twin ((s.resumeClose q e io pc).map fun r => r.1.closerAfter n r.2)
        ((t.resumeClose q e io pc).map fun r => r.1.closerAfter n r.2) :=
    fun {n q e io pc} => rel_map (h.resumeClose q e io pc) fun _ _ => Twin.closerAfter
  have hrecv : t.recvTask = s.recvTask := by
    obtain ⟨_, _, _, _, rfl, _, _⟩ := h
    rfl
  cases a with
  | exec n cmd options blocks params =>
    simp only [step, h.pc]
    split
    · rename_i hfree
      exact .some (h.startExec (hpending _ (ExecPc.critical_of_free hfree)) _)
    · exact .none
  | acquire c drain =>
    obtain ⟨f, hf, _⟩ := h.same c
    have hq : (t.execs c).cancelReq = (s.execs c).cancelReq := by rw [hf]
    have hlock : t.cmdLock = s.cmdLock := by
      obtain ⟨_, _, _, _, rfl, _, _⟩ := h
      rfl
    simp only [step, h.pc, hq, hlock]
    split
    · split
      · exact .some (h.execLine drain (ha c drain rfl))
      · exact .none
    · exact .none
  | resume c io => exact h.resume io
  | expire c => exact h.expire
  | cancel n =>
    simp only [step, h.pc]
    split
    · exact .none
    · exact .some h.cancelExec
  | wait n timeout =>
    simp only [step, h.feed, deadlineOf, h.now]
    exact hfeed _
  | resumeWait n =>
    simp only [step, h.feed]
    exact hfeed _
  | expireWait n =>
    simp only [step, h.feed, h.now]
    exact hfeed _
  | cancelWait n =>
    simp only [step, h.feed]
    exact hfeed _
  | close n io =>
    simp only [step, h.closers]
    split
    · exact .some (Twin.closerAfter ((h.setCloser n {}).close none io))
    · exact .none
  | resumeClose n io =>
    simp only [step, resumeCloser, h.closers]
    split
    · exact hclosing
    · exact .none
  | expireClose n =>
    simp only [step, expireCloser, h.closers, h.now]
    split
    · split
      · exact .some (h.setCloser n _)
      · exact .none
    · exact .none
  | cancelClose n =>
    simp only [step, cancelCloser, h.closers]
    split
    · exact .some (h.setCloser n _)
    · exact .none
  | keepalive => exact h.keepalive (hpending .keepalive) hb.tasks.keepalive
  | recv line =>
    simp only [step, hrecv]
    split
    · exact .some (h.recvLine line)
    · exact .none
  | eof =>
    simp only [step, hrecv]
    split
    · exact .some (h.sendFailed.shutdown.setRecv .ended)
    · exact .none
  | readError =>
    simp only [step, hrecv]
    split
    · exact .some (h.shutdown.setRecv .ended)
    · exact .none
  | recvStop =>
    simp only [step]
    rw [hrecv]
    split
    · exact .some (h.setRecv .ended)
    · exact .none
  | tick d =>
    simp only [step]
    split
    · obtain ⟨buffer, received, sent, execs, rfl, hexecs, hbuffer⟩ := h
      exact .some ⟨buffer, received, sent, execs, rfl, hexecs, hbuffer⟩
    · exact .none

end Conn
end Atsq
