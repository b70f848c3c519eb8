import Atsq.Connection.Shutdown

/-!
# One call of `exec`, step by step

What the steps of a connection do to the call that one caller is in.

* `Steady v w c`      the caller's line, its attempt and the lines it sent stay, lines only arrive;
* `Starts c a`        the action may start a call of this caller;
* `answerPc`          where an answer leaves the call;
* `CallStep cfg s c s'`  the ways a call goes on.

Main result: `step_call`, every step that does not start a call is one of these.
-/

namespace Atsq
open Py

theorem Exec.interrupt_place (e : Exec) :
    e.interrupt.pc = e.pc ∧ e.interrupt.line = e.line ∧ e.interrupt.attempt = e.attempt := by
  unfold Exec.interrupt
  split <;> exact ⟨rfl, rfl, rfl⟩

namespace Session

def sentBy (v : Session) (c : Caller) : List Sent := v.sent.filter fun x => x.caller == c

structure Steady (v w : Session) (c : Caller) : Prop where
  line : (w.execs c).line = (v.execs c).line
  attempt : (w.execs c).attempt = (v.execs c).attempt
  sent : w.sentBy c = v.sentBy c
  received : v.received <+: w.received

theorem Steady.refl (v : Session) (c : Caller) : Steady v v c :=
  ⟨rfl, rfl, rfl, List.prefix_rfl⟩

theorem Steady.trans {u v w : Session} {c : Caller} (h₁ : Steady u v c) (h₂ : Steady v w c) :
    Steady u w c :=
  ⟨h₂.line.trans h₁.line, h₂.attempt.trans h₁.attempt, h₂.sent.trans h₁.sent,
    h₁.received.trans h₂.received⟩

theorem steady_setExec (v : Session) (d c : Caller) {e : Exec}
    (he : d = c → e.line = (v.execs c).line ∧ e.attempt = (v.execs c).attempt) :
    Steady v (v.setExec d e) c := by
  refine ⟨?_, ?_, rfl, List.prefix_rfl⟩
  · by_cases h : c = d
    · subst h
      rw [setExec_self]
      exact (he rfl).1
    · rw [setExec_of_ne v e h]
  · by_cases h : c = d
    · subst h
      rw [setExec_self]
      exact (he rfl).2
    · rw [setExec_of_ne v e h]

theorem steady_settle (v : Session) (f : Future) (c : Caller) : Steady v (v.settle f) c := by
  rcases v.settle_cases with ⟨d, _, _, hset⟩ | ⟨_, hset⟩
  · rw [hset]
    exact steady_setExec v d c (by rintro rfl; exact ⟨rfl, rfl⟩)
  · rw [hset]
    exact .refl v c

theorem steady_recv (v : Session) (line : Bytes) (c : Caller) : Steady v (v.recv line) c := by
  have hgrow : ∀ buffer, Steady v
      { v with received := v.received ++ [line], dataBuffer := buffer } c := fun _ =>
    ⟨rfl, rfl, rfl, List.prefix_append _ _⟩
  unfold recv
  split
  · split
    · exact (hgrow []).trans (steady_settle _ _ c)
    · refine (hgrow []).trans (Steady.trans ?_ (steady_settle _ _ c))
      exact ⟨rfl, rfl, rfl, List.prefix_rfl⟩
  · split
    · exact hgrow _
    · exact hgrow _

/-- **A move that is not the caller's own leaves its call where it is.** -/
theorem Move.steady {P : Policy} {v w : Session} (hm : Move P v w) {c : Caller} (hgo : ¬ P.go c)
    (hstart : ¬ P.start c) : Steady v w c ∧ (w.execs c).pc = (v.execs c).pc := by
  have other : ∀ {u : Session} {d : Caller} {e : Exec}, u.execs = v.execs → u.sent = v.sent →
      u.received = v.received → d ≠ c →
      Steady v (u.setExec d e) c ∧ ((u.setExec d e).execs c).pc = (v.execs c).pc := by
    intro u d e h1 h2 h3 hne
    have hexec : (u.setExec d e).execs c = v.execs c := by
      rw [setExec_of_ne u e (Ne.symm hne), h1]
    refine ⟨⟨by rw [hexec], by rw [hexec], ?_, ?_⟩, by rw [hexec]⟩
    · show u.sent.filter _ = _
      rw [h2]
      rfl
    · show v.received <+: u.received
      rw [h3]
  have own : ∀ {d : Caller} {e : Exec}, e.pc = (v.execs d).pc → e.line = (v.execs d).line →
      e.attempt = (v.execs d).attempt →
      Steady v (v.setExec d e) c ∧ ((v.setExec d e).execs c).pc = (v.execs c).pc :=
    fun h1 h2 h3 => ⟨steady_setExec v _ c (by rintro rfl; exact ⟨h2, h3⟩), setExec_pc v _ h1 c⟩
  cases hm with
  | start d e h => exact other rfl rfl rfl (by rintro rfl; exact hstart h)
  | outside d e h => exact other rfl rfl rfl (by rintro rfl; exact hgo h)
  | handOver d h =>
    have hne : d ≠ c := by rintro rfl; exact hgo h
    have hexec : (v.handOver d).execs c = v.execs c := setExec_of_ne _ _ (Ne.symm hne)
    refine ⟨⟨by rw [hexec], by rw [hexec], ?_, List.prefix_rfl⟩, by rw [hexec]⟩
    show (v.sent ++ [_]).filter _ = v.sent.filter _
    rw [List.filter_append, List.filter_cons_of_neg (by simpa using hne), List.filter_nil,
      List.append_nil]
  | await d _ h => exact other rfl rfl rfl (by rintro rfl; exact hgo h)
  | close d _ h => exact other rfl rfl rfl (by rintro rfl; exact hgo h)
  | complete d h => exact other rfl rfl rfl (by rintro rfl; exact hgo h)
  | leave d h => exact other rfl rfl rfl (by rintro rfl; exact hgo h)
  | cancel d =>
    have h := (v.execs d).interrupt_place
    exact own h.1 h.2.1 h.2.2
  | expire d =>
    have h := (v.execs d).interrupt_place
    exact own h.1 h.2.1 h.2.2
  | expireClose d =>
    have h := (v.execs d).interrupt_place
    exact own h.1 h.2.1 h.2.2
  | recv line => exact ⟨steady_recv v line c, recv_pc v line c⟩
  | shutdown =>
    refine ⟨Steady.trans ?_ (steady_settle { v with closed := true } .exception c),
      settle_pc { v with closed := true } .exception c⟩
    exact ⟨rfl, rfl, rfl, List.prefix_rfl⟩
  | lose => exact ⟨⟨rfl, rfl, rfl, List.prefix_rfl⟩, rfl⟩

theorem moves_steady {P : Policy} {v w : Session} (hm : Moves P v w) {c : Caller} (hgo : ¬ P.go c)
    (hstart : ¬ P.start c) : Steady v w c ∧ (w.execs c).pc = (v.execs c).pc := by
  induction hm with
  | refl => exact ⟨.refl v c, rfl⟩
  | tail _ hm ih =>
    obtain ⟨h1, h2⟩ := hm.steady hgo hstart
    exact ⟨ih.1.trans h1, h2.trans ih.2⟩

/-- the connection or the transport is closed, or the caller is cancelled -/
def Disturbed (v : Session) (c : Caller) : Prop :=
  v.closed = true ∨ v.lost = true ∨ (v.execs c).cancelReq = true

theorem disturbed_setExec {v : Session} {c d : Caller} {e : Exec} (h : v.Disturbed c)
    (he : (v.execs d).cancelReq = true → e.cancelReq = true) : (v.setExec d e).Disturbed c := by
  refine h.imp id (Or.imp id fun hq => ?_)
  by_cases hd : c = d
  · subst hd
    rw [setExec_self]
    exact he hq
  · rw [setExec_of_ne v e hd]
    exact hq

theorem disturbed_settle {v : Session} {c : Caller} (h : v.Disturbed c) (f : Future) :
    (v.settle f).Disturbed c := by
  rcases v.settle_cases with ⟨d, _, _, hset⟩ | ⟨_, hset⟩
  · rw [hset]
    exact disturbed_setExec h id
  · rw [hset]
    exact h

theorem Move.disturbed {P : Policy} {v w : Session} (hm : Move P v w) {c : Caller}
    (hstart : ¬ P.start c) (h : v.Disturbed c) : w.Disturbed c := by
  have other : ∀ {d : Caller} {e : Exec}, d ≠ c → (v.setExec d e).Disturbed c := by
    intro d e hd
    refine h.imp id (Or.imp id fun hq => ?_)
    rw [setExec_of_ne v e (Ne.symm hd)]
    exact hq
  have hleave : v.leave.Disturbed c := h
  cases hm with
  | start d e hs => exact other (by rintro rfl; exact hstart hs)
  | outside d e _ _ _ _ hq _ => exact disturbed_setExec h (fun hd => hq.trans hd)
  | handOver d => exact disturbed_setExec (v := { v with
      cmdLock := some d, pending := some d, sent := v.sent ++ [_] }) h id
  | await d => exact disturbed_setExec h id
  | close d => exact disturbed_setExec h id
  | cancel d => exact disturbed_setExec h (fun _ => rfl)
  | expire d => exact disturbed_setExec h (fun hq => (v.execs d).expire_cancelReq.trans hq)
  | expireClose d => exact disturbed_setExec h (fun hq => (v.execs d).expire_cancelReq.trans hq)
  | complete d => exact disturbed_setExec hleave id
  | leave d => exact disturbed_setExec hleave id
  | recv line =>
    unfold Session.recv
    split
    · split
      · exact disturbed_settle (v := { v with
          received := v.received ++ [line], dataBuffer := [] }) h _
      · exact disturbed_settle (v := { v with
          received := v.received ++ [line], dataBuffer := [], closed := true }) (Or.inl rfl) _
    · split
      · exact h
      · exact h
  | shutdown => exact disturbed_settle (v := { v with closed := true }) (Or.inl rfl) _
  | lose => exact Or.inr (Or.inl rfl)

end Session

def Outcome.early : Outcome → Bool
  | .cancelled | .connectionClosed | .queryTimeout | .sendError => true
  | _ => false

namespace Conn
open Session

def Starts : Caller → Action → Prop
  | .task n, .exec m _ _ _ _ => m = n
  | .keepalive, .keepalive => True
  | _, _ => False

/-- a call can end without an answer: the connection or its transport is closed, or it is
cancelled -/
def Disturbed (s : Conn) (c : Caller) : Prop := s.session.Disturbed c

/-- why a call may end so without an answer: it is disturbed, or its send raised -/
def Excused (s : Conn) (c : Caller) (o : Outcome) : Prop := Disturbed s c ∨ o = .sendError

def answerPc (cfg : Config) (now : ℚ) (attempt : Nat) (data : List Bytes) (error : ErrorLine) :
    ExecPc :=
  if error.ok then .finished (.rows (parseDataBlock data))
  else
    let err := QueryError.create error.id error.msg error.extra
    if err.flood && attempt != cfg.floodRetries then
      .sleeping (now + (err.retryAfter + 1 / 10))
    else .finished (.queryError err)

theorem answerPc_form (cfg : Config) (now : ℚ) (attempt : Nat) (data : List Bytes)
    (error : ErrorLine) : (∃ wake, answerPc cfg now attempt data error = .sleeping wake) ∨
      ∃ o, answerPc cfg now attempt data error = .finished o := by
  unfold answerPc
  split
  · exact Or.inr ⟨_, rfl⟩
  · simp only []
    split
    · exact Or.inl ⟨_, rfl⟩
    · exact Or.inr ⟨_, rfl⟩

theorem startAttempt_pc (cfg : Config) (s : Conn) (c : Caller) (k : Nat) :
    ((s.startAttempt cfg c k).execs c).pc = .locking ∨
      ((s.startAttempt cfg c k).execs c).pc = .finished .assertionError := by
  unfold startAttempt
  split
  · rw [setExec_self]
    exact Or.inl rfl
  · rw [finish_pc]
    exact Or.inr rfl

theorem startExec_pc (cfg : Config) (s : Conn) (c : Caller) (line : Except RenderError Bytes) :
    ((s.startExec cfg c line).execs c).pc = .locking ∨
      ∃ o, ((s.startExec cfg c line).execs c).pc = .finished o := by
  unfold startExec
  cases line with
  | error e =>
    simp only []
    rw [setExec_self]
    exact Or.inr ⟨_, rfl⟩
  | ok line => exact (startAttempt_pc cfg _ c 0).imp id fun h => ⟨_, h⟩

/-- the ways a call goes on -/
inductive CallStep (cfg : Config) (s : Conn) (c : Caller) (s' : Conn) : Prop where
  | still : Steady s.session s'.session c → (s'.execs c).pc = (s.execs c).pc → CallStep cfg s c s'
  /-- the caller has the lock and writes its line -/
  | handOver (x : Sent) : (s.execs c).pc = .locking → s.closed = false → s.cmdLock = none →
      x.caller = c → x.line = (s.execs c).line → x.mark = s.received.length →
      s'.sent = s.sent ++ [x] → s'.received = s.received →
      (s'.execs c).line = (s.execs c).line → (s'.execs c).attempt = (s.execs c).attempt →
      ((s'.execs c).pc = .sending ∨ (s'.execs c).pc = .awaiting (s.now + cfg.commandTimeout) ∨
        ∃ o, (s'.execs c).pc = .finished o ∧ o.early = true ∧ Excused s' c o) →
      CallStep cfg s c s'
  | await : Steady s.session s'.session c → (s.execs c).pc = .sending →
      (s'.execs c).pc = .awaiting (s.now + cfg.commandTimeout) → CallStep cfg s c s'
  | close (p : ClosePc) : Steady s.session s'.session c → (s.execs c).pc.critical = true →
      (s'.execs c).pc = .closing p → s'.closed = true → CallStep cfg s c s'
  | answer (data : List Bytes) (error : ErrorLine) : Steady s.session s'.session c →
      (s.execs c).pc.critical = true → (s.execs c).future = .result data error →
      (s'.execs c).pc = answerPc cfg s.now (s.execs c).attempt data error → CallStep cfg s c s'
  | stop (o : Outcome) : Steady s.session s'.session c → (s.execs c).pc.free = false →
      (s'.execs c).pc = .finished o → o.early = true → Excused s' c o → CallStep cfg s c s'
  | retry (wake : ℚ) : (s.execs c).pc = .sleeping wake → wake ≤ s.now →
      s' = s.startAttempt cfg c ((s.execs c).attempt + 1) → CallStep cfg s c s'

/-! ## the caller's own steps -/

def idlePolicy : Policy where
  start _ := False
  go _ := False
  send _ _ := True
  recv _ _ := True
  leave _ _ := True
  cancel _ _ := True

section
variable {cfg : Config} {s s' : Conn} {c : Caller}

theorem steady_own (s : Conn) (c : Caller) {e : Exec} (h1 : e.line = (s.execs c).line)
    (h2 : e.attempt = (s.execs c).attempt) : Steady s.session (s.setExec c e).session c :=
  steady_setExec s.session c c (fun _ => ⟨h1, h2⟩)

theorem steady_leave (s : Conn) (c : Caller) : Steady s.session s.leave.session c :=
  ⟨rfl, rfl, rfl, List.prefix_rfl⟩

theorem steady_sendFailed (s : Conn) (c : Caller) : Steady s.session s.sendFailed.session c :=
  ⟨rfl, rfl, rfl, List.prefix_rfl⟩

theorem Disturbed.finish {r : Conn} (h : Disturbed r c) (o : Outcome) :
    Disturbed (r.finish c o) c := by
  have hself : ((r.finish c o).execs c).cancelReq = (r.execs c).cancelReq := by
    unfold Conn.finish
    rw [setExec_self]
  exact h.imp id (Or.imp id fun hq => hself.trans hq)

theorem callStep_finish (hn : (s.execs c).pc.free = false) {o : Outcome} (ho : o.early = true)
    (hd : Disturbed s c) : CallStep cfg s c (s.finish c o) :=
  .stop o (steady_own s c rfl rfl) hn (finish_pc o) ho (Or.inl (hd.finish o))

theorem callStep_leave {r : Conn} (hr : Steady s.session r.session c)
    (hn : (s.execs c).pc.free = false) {o : Outcome} (ho : o.early = true)
    (hd : Excused r.leave c o) : CallStep cfg s c (r.leave.finish c o) :=
  .stop o ((hr.trans (steady_leave r c)).trans (steady_own r.leave c rfl rfl)) hn (finish_pc o) ho
    (hd.imp (fun h => h.finish o) id)

theorem complete_eq (cfg : Config) (s : Conn) (c : Caller) (data : List Bytes)
    (error : ErrorLine) : s.complete cfg c data error = s.leave.touch.setExec c
      { s.execs c with pc := answerPc cfg s.now (s.execs c).attempt data error } := by
  have hexec : s.leave.touch.execs c = s.execs c := rfl
  have hnow : s.leave.touch.now = s.now := rfl
  unfold complete answerPc
  simp only [hexec, hnow]
  split
  · rfl
  · split <;> rfl

theorem callStep_awaitFuture {r : Conn} (hr : Steady s.session r.session c)
    (hexec : r.execs c = s.execs c) (hnow : r.now = s.now)
    (hi : s.session.Inv) (hclosed : r.closed = s.closed)
    (hc : (s.execs c).pc.critical = true) (hn : (s.execs c).pc.free = false)
    (he : (s.execs c).pc = .sending ∨ (s.execs c).expired = false)
    (hp : (s.execs c).future = .pending → (s.execs c).pc = .sending) :
    CallStep cfg s c (r.awaitFuture cfg c) := by
  obtain ⟨x, _, _, hfut⟩ := (hi.callers c).own ((hi.callers c).holder.mp hc)
  unfold awaitFuture
  rw [hexec, hnow]
  cases hf : (s.execs c).future with
  | pending =>
    refine .await (hr.trans (steady_own r c ?_ ?_)) (hp hf) ?_
    · rw [hexec]
    · rw [hexec]
    · rw [setExec_self]
  | result data error =>
    simp only []
    rw [complete_eq, hexec, hnow]
    refine .answer data error (hr.trans ((steady_leave r c).trans ?_)) hc hf ?_
    · have hexec' : r.leave.touch.execs c = s.execs c := hexec
      exact steady_own r.leave.touch c (by rw [hexec']) (by rw [hexec'])
    · rw [setExec_self]
  | exception =>
    have hexc : s.closed = true := by
      have hsame : (s.session.execs c).future = .exception := hf
      unfold Session.FutureOk at hfut
      rw [hsame] at hfut
      exact hfut
    exact callStep_leave hr hn rfl (Or.inl (Or.inl (hclosed.trans hexc)))
  | cancelled =>
    have hcan : (s.execs c).pc ≠ .sending ∧
        (s.closed = true ∨ (s.execs c).cancelReq = true ∨ (s.execs c).expired = true) := by
      have hsame : (s.session.execs c).future = .cancelled := hf
      unfold Session.FutureOk at hfut
      rw [hsame] at hfut
      exact hfut
    refine callStep_leave hr hn rfl (Or.inl ?_)
    rcases hcan.2 with h | h | h
    · exact Or.inl (hclosed.trans h)
    · refine Or.inr (Or.inr ?_)
      show (r.execs c).cancelReq = true
      rw [hexec]
      exact h
    · rw [he.resolve_left hcan.1] at h
      cases h

theorem sendDone_handOver (cfg : Config) (s : Conn) (c : Caller) (t : SshTransport) :
    sendDone cfg (s.handOver c t) c .done = (s.handOver c t).touch.setExec c
      { (s.handOver c t).execs c with pc := .awaiting (s.now + cfg.commandTimeout) } := by
  show (s.handOver c t).touch.awaitFuture cfg c = _
  have htouch : (s.handOver c t).touch.execs c = (s.handOver c t).execs c := rfl
  unfold awaitFuture
  rw [htouch, exec_handOver]
  rfl

theorem callStep_execLine (hpc : (s.execs c).pc = .locking) (hlock : s.cmdLock = none)
    (drain : Drain) : CallStep cfg s c (s.execLine cfg c drain) := by
  have hn : (s.execs c).pc.free = false := by rw [hpc]; rfl
  unfold execLine
  split
  · rename_i hclosed
    exact callStep_finish hn rfl (Or.inl hclosed)
  · rename_i hopen
    split
    · rename_i hnone
      refine callStep_finish hn rfl (Or.inr (Or.inl ?_))
      unfold SshTransport.sendLine at hnone
      split at hnone
      · assumption
      · cases hnone
    · rename_i t ht
      have hexec := exec_handOver s c t
      have hopen := Bool.eq_false_iff.mpr hopen
      cases drain with
      | suspends =>
        have hexec' : (sendDone cfg (s.handOver c t) c .suspends).execs c
            = (s.handOver c t).execs c := rfl
        rw [hexec] at hexec'
        refine .handOver _ hpc hopen hlock rfl rfl rfl rfl rfl ?_ ?_ (Or.inl ?_) <;> rw [hexec']
      | done =>
        rw [sendDone_handOver]
        refine .handOver _ hpc hopen hlock rfl rfl rfl rfl rfl ?_ ?_ (Or.inr (Or.inl ?_))
        · rw [setExec_self, hexec]
        · rw [setExec_self, hexec]
        · rw [setExec_self]
      | fails =>
        have hexec' : ((s.handOver c t).sendFailed.leave).execs c = (s.handOver c t).execs c := rfl
        refine .handOver _ hpc hopen hlock rfl rfl rfl rfl rfl ?_ ?_ (Or.inr (Or.inr ?_))
        · show (((s.handOver c t).sendFailed.leave).finish c _ |>.execs c).line = _
          unfold finish
          rw [setExec_self, hexec', hexec]
        · show (((s.handOver c t).sendFailed.leave).finish c _ |>.execs c).attempt = _
          unfold finish
          rw [setExec_self, hexec', hexec]
        · exact ⟨_, finish_pc _, rfl, Or.inl (Disturbed.finish (Or.inr (Or.inl rfl)) _)⟩
      | raises =>
        have hexec' : (s.handOver c t).leave.execs c = (s.handOver c t).execs c := rfl
        refine .handOver _ hpc hopen hlock rfl rfl rfl rfl rfl ?_ ?_ (Or.inr (Or.inr ?_))
        · show ((s.handOver c t).leave.finish c _ |>.execs c).line = _
          unfold finish
          rw [setExec_self, hexec', hexec]
        · show ((s.handOver c t).leave.finish c _ |>.execs c).attempt = _
          unfold finish
          rw [setExec_self, hexec', hexec]
        · exact ⟨_, finish_pc _, rfl, Or.inr rfl⟩

theorem callStep_afterClose {r : Conn} (hr : Steady s.session r.session c)
    (hclosed : r.closed = true) (hc : (s.execs c).pc.critical = true)
    (hn : (s.execs c).pc.free = false) (q : CloseResult) :
    CallStep cfg s c (r.afterClose c q) := by
  cases q with
  | suspended p =>
    refine .close p (hr.trans (steady_own r c rfl rfl)) hc ?_ hclosed
    show ((r.setExec c _).execs c).pc = _
    rw [setExec_self]
  | returned =>
    exact callStep_leave (r := { r with closeReturned := true }) hr hn rfl (Or.inl (Or.inl hclosed))
  | cancelled => exact callStep_leave hr hn rfl (Or.inl (Or.inl hclosed))

theorem wake_le_of_resume {io : Io} {wake : ℚ} (hpc : (s.execs c).pc = .sleeping wake)
    (hs : s.resume cfg c io = some s') :
    ((s.execs c).cancelReq = true ∧ s' = s.finish c .cancelled) ∨ (wake ≤ s.now ∧
      s' = s.startAttempt cfg c ((s.execs c).attempt + 1)) := by
  unfold resume at hs
  simp only [hpc] at hs
  split at hs
  · rename_i hq
    cases hs
    exact Or.inl ⟨hq, rfl⟩
  · split at hs
    · rename_i hle
      cases hs
      exact Or.inr ⟨hle, rfl⟩
    · cases hs

theorem cancelReq_of_resume {io : Io} (hpc : (s.execs c).pc = .locking)
    (hs : s.resume cfg c io = some s') : (s.execs c).cancelReq = true := by
  unfold resume at hs
  simp only [hpc] at hs
  split at hs
  · assumption
  · cases hs

theorem callStep_resume (hi : s.session.Inv) {io : Io} (hs : s.resume cfg c io = some s') :
    CallStep cfg s c s' := by
  have hfree : ∀ {pc : ExecPc}, (s.execs c).pc = pc → pc.free = false →
      (s.execs c).pc.free = false := fun h hf => by rw [h]; exact hf
  cases resume_cases hs with
  | cancelLocking hpc =>
    exact callStep_finish (hfree hpc rfl) rfl (Or.inr (Or.inr (cancelReq_of_resume hpc hs)))
  | cancelSleeping hpc =>
    rcases wake_le_of_resume hpc hs with ⟨hq, _⟩ | ⟨_, h⟩
    · exact callStep_finish (hfree hpc rfl) rfl (Or.inr (Or.inr hq))
    · exact h ▸ .retry _ hpc ‹_› rfl
  | @retry wake hpc =>
    rcases wake_le_of_resume hpc hs with ⟨hq, h⟩ | ⟨hle, h⟩
    · rw [h]
      exact callStep_finish (hfree hpc rfl) rfl (Or.inr (Or.inr hq))
    · exact .retry wake hpc hle rfl
  | cancelSent hq hpc =>
    have hdisturbed : Disturbed s.leave c := Or.inr (Or.inr hq)
    rcases hpc with hpc | ⟨d, hpc⟩
    · exact callStep_leave (.refl _ c) (hfree hpc rfl) rfl (Or.inl hdisturbed)
    · exact callStep_leave (.refl _ c) (hfree hpc rfl) rfl (Or.inl hdisturbed)
  | sendDone hpc _ =>
    cases io.drain with
    | suspends => exact .still (.refl _ c) rfl
    | done =>
      exact callStep_awaitFuture (r := s.touch) ⟨rfl, rfl, rfl, List.prefix_rfl⟩ rfl rfl hi rfl
        (by rw [hpc]; rfl) (hfree hpc rfl) (Or.inl hpc) (fun _ => hpc)
    | fails =>
      have hdisturbed : Disturbed s.sendFailed.leave c := Or.inr (Or.inl rfl)
      exact callStep_leave (steady_sendFailed s c) (hfree hpc rfl) rfl (Or.inl hdisturbed)
    | raises => exact callStep_leave (.refl _ c) (hfree hpc rfl) rfl (Or.inr rfl)
  | timeout hpc _ _ =>
    have hmoves : Session.Moves idlePolicy s.session (s.close (some c) io).1.session :=
      moves_close (fun _ _ => trivial) s (some c) io
    exact callStep_afterClose (moves_steady hmoves id id).1 (close_closed ..)
      (by rw [hpc]; rfl) (hfree hpc rfl) _
  | response hpc _ he hf =>
    exact callStep_awaitFuture (.refl _ c) rfl rfl hi rfl (by rw [hpc]; rfl) (hfree hpc rfl)
      (Or.inr he) (fun hp => absurd hp hf)
  | @closing pc r hpc hr =>
    have hclosed : s.closed = true := by
      have hres := (hi.callers c).result
      change Session.ResultOk _ _ (s.execs c).pc at hres
      rw [hpc] at hres
      exact hres
    have hmoves : Session.Moves idlePolicy s.session r.1.session := moves_resumeClose hr
    exact callStep_afterClose (moves_steady hmoves id id).1
      ((resumeClose_frame hr).2.trans hclosed) (by rw [hpc]; rfl) (hfree hpc rfl) r.2

/-- **Every step that does not start a call of the caller is one of `CallStep`.** -/
theorem step_call {a : Action} (hb : Base s) (hs : s.step cfg a = some s') (c : Caller)
    (ha : ¬ Starts c a) : CallStep cfg s c s' := by
  by_cases hacquire : ∃ drain, a = .acquire c drain
  · obtain ⟨drain, rfl⟩ := hacquire
    cases step_cases hs with
    | acquire hpc hlock _ => exact callStep_execLine hpc hlock drain
    | feed hfa _ => cases hfa
  by_cases hresume : ∃ io, a = .resume c io
  · obtain ⟨io, rfl⟩ := hresume
    exact callStep_resume hb.session hs
  -- somebody else's step
  let P : Policy := { idlePolicy with start := fun d => d ≠ c, go := fun d => d ≠ c }
  have hallowed : Allowed P s a :=
    { allowed_any s a with
      start := fun n cmd options blocks params e hn => ha (by rw [e, ← hn]; rfl)
      acquire := fun d drain e hn => hacquire ⟨drain, by rw [e, hn]⟩
      resume := fun d io e hn => hresume ⟨io, by rw [e, hn]⟩
      startKeepalive := fun e hn => ha (by rw [e, ← hn]; trivial) }
  obtain ⟨h1, h2⟩ := moves_steady (step_moves hb.session hb.tasks hallowed hs)
    (fun h => h rfl) (fun h => h rfl)
  exact .still h1 h2

theorem received_prefix {a : Action} (hb : Base s) (hs : s.step cfg a = some s')
    (ha : ¬ Starts c a) : s.received <+: s'.received := by
  cases step_call hb hs c ha with
  | handOver _ _ _ _ _ _ _ _ hreceived =>
    rw [hreceived]
  | retry _ _ _ he =>
    rw [he]
    unfold startAttempt
    split <;> exact List.prefix_rfl
  | still hst _ => exact hst.received
  | await hst _ _ => exact hst.received
  | close _ hst _ _ _ => exact hst.received
  | answer _ _ hst _ _ _ => exact hst.received
  | stop _ hst _ _ _ _ => exact hst.received

theorem step_disturbed {a : Action} (hb : Base s) (hs : s.step cfg a = some s')
    (ha : ¬ Starts c a) (h : Disturbed s c) : Disturbed s' c := by
  let P : Policy := { anyPolicy with start := fun d => d ≠ c }
  have hallowed : Allowed P s a :=
    { allowed_any s a with
      start := fun n cmd options blocks params e hn => ha (by rw [e, ← hn]; rfl)
      startKeepalive := fun e hn => ha (by rw [e, ← hn]; trivial) }
  exact inv_moves_of (I := fun v => v.Disturbed c)
    (fun _ _ _ h hm => hm.disturbed (fun hne : P.start c => hne rfl) h)
    (step_moves hb.session hb.tasks hallowed hs) hb.session h

end

end Conn
end Atsq
