import Atsq.Connection.Deadline
import Atsq.Connection.Keepalive
import Atsq.Lib.Trace

/-!
# A silent peer is noticed

* `Heard`       a watched connection, with the time when a line arrived last, or a caller was
                cancelled last;
* `Ripe v c`    the caller has its answer, or is cancelled, and did not run on yet;
* `Timely`      exact time: none passes while a task can run on, or past a timer; no send raises;
* `Alert`       what a connection keeps that hears nothing.

Main result: `silence_noticed`: it is closed before it has heard nothing for longer than the
keepalive interval and the command timeout.
-/

namespace Atsq
open Py

namespace Session

def Down (v : Session) : Prop := v.closed = true ∨ v.lost = true

/-- a caller in flight that has its answer, or is cancelled -/
def Ripe (v : Session) (c : Caller) : Prop :=
  (v.execs c).pc.inFlight = true ∧
    ((∃ data error, (v.execs c).future = .result data error) ∨ (v.execs c).cancelReq = true)

section
variable {P : Policy} {v w : Session} {c : Caller}

theorem lost_settle (v : Session) (f : Future) : (v.settle f).lost = v.lost := by
  rcases v.settle_cases with ⟨d, _, _, hset⟩ | ⟨_, hset⟩
  · rw [hset]
    rfl
  · rw [hset]

theorem closed_settle (v : Session) (f : Future) : (v.settle f).closed = v.closed := by
  rcases v.settle_cases with ⟨d, _, _, hset⟩ | ⟨_, hset⟩
  · rw [hset]
    rfl
  · rw [hset]

theorem down_shutdown (v : Session) : v.shutdown.Down := Or.inl (closed_settle _ _)

theorem lost_recv (v : Session) (line : Bytes) : (v.recv line).lost = v.lost := by
  unfold recv
  split
  · split
    · exact lost_settle _ _
    · exact lost_settle _ _
  · split <;> rfl

theorem Move.down (hm : Move P v w) (h : v.Down) : w.Down := by
  rcases h with hclosed | hlost
  · exact Or.inl (hm.sent_of_closed hclosed).2
  · refine Or.inr ?_
    cases hm with
    | recv line => exact (lost_recv v line).trans hlost
    | shutdown => exact (lost_settle _ _).trans hlost
    | lose => rfl
    | _ => exact hlost

theorem not_ripe_of_pc {pc : ExecPc} (hpc : (v.execs c).pc = pc) (h : pc.inFlight = false) :
    ¬ v.Ripe c := fun hr => by
  have hfly := hr.1
  rw [hpc, h] at hfly
  cases hfly

theorem ripe_of_execs (h : w.execs c = v.execs c) : w.Ripe c ↔ v.Ripe c := by
  unfold Ripe
  rw [h]

/-- nobody becomes ripe but by a line or a cancellation -/
theorem Move.unripe (hm : Move P v w) (hrecv : ∀ line, ¬ P.recv v line)
    (hcancel : P.cancel v c → v.closed = true) (h : ¬ v.Ripe c) : w.Down ∨ ¬ w.Ripe c := by
  have other : ∀ {u : Session} {d : Caller} {e : Exec}, u.execs = v.execs →
      (d = c → ¬ (u.setExec d e).Ripe c) → w = u.setExec d e → w.Down ∨ ¬ w.Ripe c := by
    rintro u d e hu hd rfl
    by_cases hdc : d = c
    · exact Or.inr (hd hdc)
    · refine Or.inr fun hr => h ((ripe_of_execs ?_).mp hr)
      rw [setExec_of_ne u e (Ne.symm hdc), hu]
  -- the caller's own place is not in flight
  have away : ∀ {u : Session} {d : Caller} {e : Exec}, e.pc.inFlight = false →
      d = c → ¬ (u.setExec d e).Ripe c := by
    rintro u d e he rfl
    exact not_ripe_of_pc (congrArg Exec.pc (setExec_self u d e)) he
  have plain : ∀ {pc : ExecPc}, pc.plain = true → pc.inFlight = false := fun {pc} hpc => by
    cases pc with
    | finished o => rfl
    | _ => first | rfl | cases hpc
  cases hm with
  | start d e _ _ he _ _ => exact other rfl (away (plain he)) rfl
  | outside d e _ _ _ he _ _ => exact other rfl (away (plain he)) rfl
  | handOver d _ _ _ _ _ _ hq =>
    refine other (u := { v with
      cmdLock := some d, pending := some d, sent := v.sent ++ [_] }) rfl ?_ rfl
    rintro rfl ⟨_, hr⟩
    rw [setExec_self] at hr
    rcases hr with ⟨_, _, hf⟩ | hr
    · cases hf
    · cases hq.symm.trans hr
  | await d _ _ hpc =>
    refine other rfl ?_ rfl
    rintro rfl ⟨_, hr⟩
    rw [setExec_self] at hr
    exact h ⟨by rw [hpc]; rfl, hr⟩
  | close d p _ _ hclosed => exact Or.inl (Or.inl hclosed)
  | cancel d hd =>
    refine (em (d = c)).elim (fun hdc => ?_) fun hdc => other rfl (fun he => absurd he hdc) rfl
    subst hdc
    exact Or.inl (Or.inl (hcancel hd))
  | @expire d deadline hpc =>
    refine other rfl ?_ rfl
    rintro rfl ⟨_, hr⟩
    rw [setExec_self] at hr
    refine h ⟨by rw [hpc]; rfl, ?_⟩
    refine hr.imp (fun hf => ?_) fun hq => (v.execs d).expire_cancelReq.symm.trans hq
    obtain ⟨data, error, hf⟩ := hf
    refine ⟨data, error, ?_⟩
    unfold Exec.expire Exec.interrupt at hf
    split at hf
    · cases hf
    · exact hf
  | @expireClose d p hpc =>
    refine other rfl (away ?_) rfl
    rw [(v.execs d).expire_pc, hpc]
    rfl
  | @complete d data error pc _ _ _ hcompletes =>
    refine other (u := v.leave) rfl (away ?_) rfl
    cases hcompletes <;> rfl
  | @leave d pc _ _ hreason =>
    refine other (u := v.leave) rfl (away ?_) rfl
    cases hreason <;> rfl
  | recv line _ hline => exact absurd hline (hrecv line)
  | shutdown _ => exact Or.inl v.down_shutdown
  | lose => exact Or.inl (Or.inr rfl)

theorem Inv.inFlight (hi : v.Inv) (hopen : v.closed = false)
    (hcrit : (v.execs c).pc.critical = true) : (v.execs c).pc.inFlight = true := by
  have hresult := (hi.callers c).result
  cases hpc : (v.execs c).pc with
  | closing p =>
    rw [hpc] at hresult
    cases hopen.symm.trans hresult
  | _ =>
    rw [hpc] at hcrit
    first | rfl | cases hcrit

theorem Reason.ripe {pc : ExecPc} (hi : v.Inv) (hr : Reason P v c pc)
    (hleave : P.leave v c → (v.execs c).cancelReq = true) (hup : ¬ v.Down)
    (hcrit : (v.execs c).pc.critical = true) : v.Ripe c := by
  have hopen : v.closed = false := Bool.eq_false_iff.mpr fun h => hup (Or.inl h)
  have hfly := hi.inFlight hopen hcrit
  obtain ⟨x, _, _, hfuture⟩ := (hi.callers c).own ((hi.callers c).holder.mp hcrit)
  unfold FutureOk at hfuture
  cases hr with
  | timeout hclosed => exact absurd (Or.inl hclosed) hup
  | closing hclosed => exact absurd (Or.inl hclosed) hup
  | lost hlost => exact absurd (Or.inr hlost) hup
  | exception hf =>
    rw [hf] at hfuture
    exact absurd (Or.inl hfuture) hup
  | stray hf hq hor =>
    rw [hf] at hfuture
    rcases hfuture.2 with hclosed | hq' | he
    · exact absurd (Or.inl hclosed) hup
    · cases hq.symm.trans hq'
    · cases (hor.resolve_left hfuture.1).symm.trans he
  | cancelled hq _ => exact ⟨hfly, Or.inr hq⟩
  | raised _ hleaves => exact ⟨hfly, Or.inr (hleave hleaves)⟩

theorem Move.holds (hi : v.Inv) (hm : Move P v w) (hrecv : ∀ line, ¬ P.recv v line)
    (hcancel : P.cancel v c → v.closed = true)
    (hleave : P.leave v c → (v.execs c).cancelReq = true)
    (h : v.Down ∨ v.cmdLock = some c ∧ ¬ v.Ripe c) :
    w.Down ∨ w.cmdLock = some c ∧ ¬ w.Ripe c := by
  by_cases hup : v.Down
  · exact Or.inl (hm.down hup)
  obtain ⟨hlock, hunripe⟩ := h.resolve_left hup
  have hunripe' := hm.unripe hrecv hcancel hunripe
  have hsame : ∀ {d : Caller}, (v.execs d).pc.critical = true → d = c := fun {d} hcrit =>
    Option.some.inj (((hi.callers d).holder.mp hcrit).symm.trans hlock)
  cases hm with
  | handOver d _ _ _ _ hnone => cases hlock.symm.trans hnone
  | @complete d data error _ _ hcrit hf _ =>
    obtain rfl := hsame hcrit
    have hopen : v.closed = false := Bool.eq_false_iff.mpr fun h => hup (Or.inl h)
    exact absurd ⟨hi.inFlight hopen hcrit, Or.inl ⟨data, error, hf⟩⟩ hunripe
  | @leave d _ _ hcrit hreason =>
    obtain rfl := hsame hcrit
    exact absurd (hreason.ripe hi hleave hup hcrit) hunripe
  | recv line _ hline => exact absurd hline (hrecv line)
  | shutdown _ => exact Or.inl v.down_shutdown
  | _ => exact hunripe'.imp id fun h => ⟨hlock, h⟩

end
end Session

namespace Conn
open Session

def stirs : Action → Bool
  | .recv _ | .cancel _ => true
  | _ => false

section
variable {cfg : Config} {s s' : Conn} {a : Action}

theorem step_down (hb : Base s) (hs : s.step cfg a = some s') (h : s.session.Down) :
    s'.session.Down :=
  inv_moves_of (I := fun v => v.Down) (fun _ _ _ h hm => hm.down h)
    (step_moves hb.session hb.tasks (allowed_any s a) hs) hb.session h

/-- nobody is sent anything, nobody cancels this caller of an open connection, and who leaves
without an answer is cancelled -/
def calmPolicy (c : Caller) : Policy :=
  { anyPolicy with
    recv := fun _ _ => False
    leave := fun v d => (v.execs d).cancelReq = true
    cancel := fun v d => d = c → v.closed = true }

theorem allowed_calm (s : Conn) (ha : stirs a = false) (hsends : SendsReturn s a) (c : Caller) :
    Allowed (calmPolicy c) s a :=
  { allowed_any s a with
    recv := fun line he => by
      rw [he] at ha
      cases ha
    leave := fun v d he => by
      cases he with
      | cancelled hq _ => exact hq
      | raises he => exact absurd he (hsends v d)
    cancel := fun n he => by
      rw [he] at ha
      cases ha
    cancelKeepalive := fun _ hclosed _ => hclosed }

theorem step_unripe (hb : Base s) (ha : stirs a = false) (hsends : SendsReturn s a)
    (hs : s.step cfg a = some s') {c : Caller} (h : ¬ s.session.Ripe c) :
    s'.session.Down ∨ ¬ s'.session.Ripe c := by
  refine inv_moves_of (P := calmPolicy c) (I := fun v => v.Down ∨ ¬ v.Ripe c)
    (fun v w _ h hm => ?_)
    (step_moves hb.session hb.tasks (allowed_calm s ha hsends c) hs) hb.session (Or.inr h)
  rcases h with hdown | h
  · exact Or.inl (hm.down hdown)
  · exact hm.unripe (fun _ => id) (fun hcancel => hcancel rfl) h

theorem step_holds (hb : Base s) (ha : stirs a = false) (hsends : SendsReturn s a)
    (hs : s.step cfg a = some s') {c : Caller} (hlock : s.cmdLock = some c)
    (h : ¬ s.session.Ripe c) : s'.session.Down ∨ s'.cmdLock = some c := by
  have hall : s'.session.Down ∨ s'.session.cmdLock = some c ∧ ¬ s'.session.Ripe c :=
    inv_moves_of (P := calmPolicy c)
      (I := fun v => v.Down ∨ v.cmdLock = some c ∧ ¬ v.Ripe c)
      (fun v w hi h hm => hm.holds hi (fun _ => id) (fun hcancel => hcancel rfl) id h)
      (step_moves hb.session hb.tasks (allowed_calm s ha hsends c) hs) hb.session
      (Or.inr ⟨hlock, h⟩)
  exact hall.imp id And.left

end

/-! ## silence -/

/-- a watched connection, when each caller handed over its last line, and when a line arrived or a
caller was cancelled last -/
structure Heard where
  watched : Watched
  handed : Caller → ℚ
  heard : ℚ := 0

namespace Heard

def conn (w : Heard) : Conn := w.watched.conn

def timed (w : Heard) : Timed := { conn := w.conn, handed := w.handed }

def start (cfg : Config) (greeting : List Bytes) : Heard :=
  { watched := Watched.start cfg greeting, handed := fun _ => 0 }

def next (w : Heard) (a : Action) (s : Conn) : Heard where
  watched := w.watched.next a s
  handed := w.timed.stamp s
  heard := if stirs a then s.now else w.heard

def step (cfg : Config) (w : Heard) (a : Action) : Option Heard :=
  (w.conn.step cfg a).map (w.next a)

end Heard

/-- no time passes while a task can run on, or past the timer of a command, and no send raises -/
structure Timely (cfg : Config) (w : Heard) (a : Action) : Prop where
  keepalive : Prompt cfg w.conn a
  timers : Punctual w.timed a
  sends : SendsAtOnce w.timed a
  returns : SendsReturn w.conn a
  answers : ∀ d, a = .tick d → 0 < d → ∀ c, ¬ w.conn.session.Ripe c

/-- as long as the connection is up, time is exact and each keepalive is answered with id 0 -/
def Attentive (cfg : Config) (w : Heard) (a : Action) : Prop :=
  ¬ w.conn.session.Down → Timely cfg w a ∧ KeepaliveOk w.conn

structure Alert (cfg : Config) (w : Heard) : Prop where
  kept : Kept cfg w.watched
  onTime : OnTime cfg w.timed
  heard : w.heard ≤ w.conn.now
  /-- the last command in flight has left with a line, or a cancellation -/
  free : w.conn.cmdLock = none → w.watched.busy ≤ w.heard
  flight : ∀ c, (w.conn.execs c).pc.inFlight = true →
    w.handed c ≤ w.heard + cfg.keepaliveInterval
  ripe : ∀ c, w.conn.session.Ripe c → w.heard = w.conn.now

section
variable {cfg : Config} {w : Heard} {s : Conn} {a : Action}

theorem not_down_iff {v : Session} : ¬ v.Down ↔ v.closed = false ∧ v.lost = false := by
  unfold Session.Down
  rw [not_or, Bool.not_eq_true, Bool.not_eq_true]

theorem heard_le (h : w.heard ≤ w.conn.now) (hs : w.conn.step cfg a = some s) :
    w.heard ≤ (w.next a s).heard ∧ (w.next a s).heard ≤ s.now := by
  have hnow : w.conn.now ≤ s.now := by
    rcases step_now hs with he | ⟨d, hd, _, rfl⟩
    · exact he.ge
    · exact le_add_of_nonneg_right hd
  show w.heard ≤ (if stirs a then s.now else w.heard) ∧ (if stirs a then s.now else w.heard) ≤ s.now
  split
  · exact ⟨h.trans hnow, le_rfl⟩
  · exact ⟨le_rfl, h.trans hnow⟩

/-- a caller that is ripe has become so just now -/
theorem step_ripe (h : Alert cfg w) (ht : Timely cfg w a) (hs : w.conn.step cfg a = some s)
    (hup : ¬ s.session.Down) {c : Caller} (hr : s.session.Ripe c) :
    (w.next a s).heard = s.now := by
  show (if stirs a then s.now else w.heard) = s.now
  cases ha : stirs a with
  | true => rfl
  | false =>
    show w.heard = s.now
    have hbefore : w.conn.session.Ripe c := by
      by_contra hno
      exact (step_unripe h.kept.base ha ht.returns hs hno).elim hup fun h => h hr
    rcases step_now hs with he | ⟨d, hd, rfl, rfl⟩
    · exact (h.ripe c hbefore).trans he.symm
    · rcases lt_or_eq_of_le hd with hd | rfl
      · exact absurd hbefore (ht.answers d rfl hd c)
      · exact (h.ripe c hbefore).trans (add_zero _).symm

theorem step_free (h : Alert cfg w) (hsends : SendsReturn w.conn a)
    (hs : w.conn.step cfg a = some s) (hup : ¬ s.session.Down) (hfree : s.cmdLock = none) :
    (w.watched.next a s).busy ≤ (w.next a s).heard := by
  obtain ⟨hmono, _⟩ := heard_le h.heard hs
  cases hlock : w.conn.cmdLock with
  | none =>
    have hbusy : (w.watched.next a s).busy = w.watched.busy := by
      have hold : w.watched.conn.cmdLock = none := hlock
      unfold Watched.next
      rw [hold, hfree]
      rfl
    rw [hbusy]
    exact (h.free hlock).trans hmono
  | some c =>
    have hbusy : (w.watched.next a s).busy = s.now := by
      have hold : w.watched.conn.cmdLock = some c := hlock
      unfold Watched.next
      rw [hold]
      rfl
    rw [hbusy]
    show s.now ≤ (if stirs a then s.now else w.heard)
    cases ha : stirs a with
    | true => exact le_rfl
    | false =>
      show s.now ≤ w.heard
      have hripe : w.conn.session.Ripe c := by
        by_contra hno
        rcases step_holds h.kept.base ha hsends hs hlock hno with hdown | hheld
        · exact hup hdown
        · cases hheld.symm.trans hfree
      rcases step_now hs with he | ⟨d, _, rfl, rfl⟩
      · rw [h.ripe c hripe, he]
      · cases hlock.symm.trans hfree

theorem step_flight (h : Alert cfg w)
    (hs : w.conn.step cfg a = some s) (hup : ¬ s.session.Down) {c : Caller}
    (hfly : (s.execs c).pc.inFlight = true) :
    w.timed.stamp s c ≤ (w.next a s).heard + cfg.keepaliveInterval := by
  obtain ⟨hmono, _⟩ := heard_le h.heard hs
  have hopen : w.conn.closed = false := step_open hs (not_down_iff.mp hup).1
  have hbefore : (w.conn.execs c).pc.inFlight = true →
      w.handed c ≤ (w.next a s).heard + cfg.keepaliveInterval := fun hfly =>
    (h.flight c hfly).trans (add_le_add_left hmono _)
  have away : ∀ {pc : ExecPc}, (s.execs c).pc = pc → pc.inFlight = false →
      w.timed.stamp s c ≤ (w.next a s).heard + cfg.keepaliveInterval := fun hpc hno => by
    rw [hpc, hno] at hfly
    cases hfly
  by_cases hstart : Starts c a
  · have hno := inFlight_of_critical (starts_critical h.kept.base hstart hs)
    exact away rfl hno
  cases step_call h.kept.base hs c hstart with
  | still hst hpc =>
    rw [Timed.stamp_of_steady (t := w.timed) hst]
    exact hbefore (hpc ▸ hfly)
  | handOver x _ _ hlock hx _ _ hsent _ _ _ _ =>
    rw [Timed.stamp_of_sent (t := w.timed) hx hsent]
    have hidle : w.conn.now ≤ w.watched.busy + cfg.keepaliveInterval := h.kept.idle hopen hlock
    exact hidle.trans (add_le_add_left ((h.free hlock).trans hmono) _)
  | await hst hpc _ =>
    rw [Timed.stamp_of_steady (t := w.timed) hst]
    exact hbefore (congrArg ExecPc.inFlight hpc)
  | close p _ _ hpc _ => exact away hpc rfl
  | answer data error _ _ _ hpc =>
    rcases answerPc_form cfg w.conn.now (w.conn.execs c).attempt data error with
      ⟨wake, he⟩ | ⟨o, he⟩
    · exact away (hpc.trans he) rfl
    · exact away (hpc.trans he) rfl
  | stop o _ _ hpc _ _ => exact away hpc rfl
  | retry wake _ _ he =>
    subst he
    rcases startAttempt_pc cfg w.conn c ((w.conn.execs c).attempt + 1) with hpc | hpc
    · exact away hpc rfl
    · exact away hpc rfl

/-! ## every run -/

theorem step_alert (hT : 0 < cfg.keepaliveInterval) (h0 : 0 ≤ cfg.commandTimeout)
    (h : Alert cfg w) (ht : Timely cfg w a) (hok : KeepaliveOk w.conn)
    (hs : w.conn.step cfg a = some s) (hup : ¬ s.session.Down) : Alert cfg (w.next a s) := by
  have hkept : Kept cfg (w.watched.next a s) := by
    refine step_kept (w := w.watched) (a := a) hT h.kept ht.keepalive hok ?_
    exact congrArg (Option.map _) hs
  have hon : OnTime cfg { conn := s, handed := w.timed.stamp s } := by
    refine step_onTime (t := w.timed) (a := a) h0 h.onTime ht.timers ht.sends ?_
    exact congrArg (Option.map _) hs
  exact
    { kept := hkept
      onTime := hon
      heard := (heard_le h.heard hs).2
      free := step_free h ht.returns hs hup
      flight := fun c => step_flight h hs hup
      ripe := fun c => step_ripe h ht hs hup }

theorem alert_start (hT : 0 < cfg.keepaliveInterval) (greeting : List Bytes) :
    Alert cfg (Heard.start cfg greeting) where
  kept := kept_start hT greeting
  onTime := ⟨base_started cfg greeting, fun _ _ => nofun, fun _ _ _ => nofun⟩
  heard := le_rfl
  free _ := le_rfl
  flight c hfly := by cases hfly
  ripe c hr := by cases hr.1

theorem Alert.bound (h0 : 0 ≤ cfg.commandTimeout) (h : Alert cfg w)
    (hopen : w.conn.closed = false) :
    w.conn.now ≤ w.heard + cfg.keepaliveInterval + cfg.commandTimeout := by
  cases hlock : w.conn.cmdLock with
  | none =>
    have hidle : w.conn.now ≤ w.watched.busy + cfg.keepaliveInterval := h.kept.idle hopen hlock
    have hheard := add_le_add_left (h.free hlock) cfg.keepaliveInterval
    exact (hidle.trans hheard).trans (le_add_of_nonneg_right h0)
  | some c =>
    have hcrit : (w.conn.execs c).pc.critical = true :=
      (h.kept.base.session.callers c).holder.mpr hlock
    have hfly : (w.conn.execs c).pc.inFlight = true := h.kept.base.session.inFlight hopen hcrit
    have hlate : w.conn.now ≤ w.handed c + cfg.commandTimeout :=
      h.onTime.underDeadline h0 c hlock hfly hopen
    exact hlate.trans (add_le_add_left (h.flight c hfly) _)

/-- **A silent peer is noticed.**  In every run with exact time and answered keepalives, whatever
callers do: a connection that has not heard a line for longer than the keepalive interval and the
command timeout, while no caller was cancelled, is closed, or a send on its transport has
failed. -/
theorem silence_noticed {greeting : List Bytes} (hT : 0 < cfg.keepaliveInterval)
    (h0 : 0 ≤ cfg.commandTimeout)
    (h : Sys.Reach (Heard.step cfg) (Attentive cfg) (Heard.start cfg greeting) w)
    (hlong : w.heard + cfg.keepaliveInterval + cfg.commandTimeout < w.conn.now) :
    w.conn.closed = true ∨ w.conn.transport.closed = true := by
  have hall : Base w.conn ∧ (w.conn.session.Down ∨ Alert cfg w) := by
    refine h.inv (I := fun w => Base w.conn ∧ (w.conn.session.Down ∨ Alert cfg w))
      ⟨base_started cfg greeting, Or.inr (alert_start hT greeting)⟩ fun w a w' hi hC hs => ?_
    obtain ⟨s, hstep, rfl⟩ := Option.map_eq_some_iff.mp hs
    refine ⟨step_base hi.1 hstep, ?_⟩
    by_cases hup : s.session.Down
    · exact Or.inl hup
    · have hup' : ¬ w.conn.session.Down := fun hdown => hup (step_down hi.1 hstep hdown)
      obtain ⟨ht, hok⟩ := hC hup'
      exact Or.inr (step_alert hT h0 (hi.2.resolve_left hup') ht hok hstep hup)
  rcases hall.2 with hdown | halert
  · exact hdown
  · refine Or.inl (Bool.not_eq_false _ ▸ fun hopen => ?_)
    exact absurd (halert.bound h0 hopen) (not_le.mpr hlong)

end

def awaitsFor (s : Conn) (d : ℚ) : Bool :=
  match (s.execs .keepalive).pc, (s.execs .keepalive).future with
  | .awaiting deadline, .pending => !(s.execs .keepalive).expired &&
      !(s.execs .keepalive).cancelReq && decide (s.now + d ≤ deadline)
  | _, _ => false

def silenceCheck (w : Heard) (a : Action) : Bool :=
  w.conn.closed || w.conn.answeredOk && match a with
  | .tick d => w.conn.sleepsFor d && w.conn.cmdLock.isNone || w.conn.awaitsFor d
  | .acquire _ drain => drain != .raises
  | .resume _ io => io.drain != .raises
  | _ => true

theorem awaitsFor_cases {s : Conn} {d : ℚ} (h : s.awaitsFor d = true) :
    ∃ deadline, (s.execs .keepalive).pc = .awaiting deadline ∧
      (s.execs .keepalive).future = .pending ∧ (s.execs .keepalive).expired = false ∧
      (s.execs .keepalive).cancelReq = false ∧ s.now + d ≤ deadline := by
  unfold awaitsFor at h
  split at h
  · rename_i deadline hpc hf
    rw [Bool.and_eq_true, Bool.and_eq_true, Bool.not_eq_true', Bool.not_eq_true',
      decide_eq_true_eq] at h
    exact ⟨deadline, hpc, hf, h.1.1, h.1.2, h.2⟩
  · cases h

theorem timely_of_sleepsFor {cfg : Config} {w : Heard} {d : ℚ} (hb : Base w.conn)
    (h : w.conn.sleepsFor d = true) (hlock : w.conn.cmdLock = none) :
    Timely cfg w (.tick d) := by
  have hno : ∀ c, (w.conn.execs c).pc.inFlight = false := fun c => by
    refine inFlight_of_critical (Bool.eq_false_iff.mpr fun hcrit => ?_)
    cases ((hb.session.callers c).holder.mp hcrit).symm.trans hlock
  refine ⟨?_, ?_, ?_, fun _ _ => nofun, ?_⟩
  · rintro _ ⟨⟩ e _ hed
    exact not_runs_of_sleepsFor h hed
  · rintro _ ⟨⟩ c deadline hpc
    cases (hno c).symm.trans (congrArg ExecPc.inFlight hpc)
  · rintro _ ⟨⟩ _ _ c hpc
    cases (hno c).symm.trans (congrArg ExecPc.inFlight hpc)
  · rintro _ ⟨⟩ _ c hripe
    cases hripe.1.symm.trans (hno c)

theorem timely_of_awaitsFor {cfg : Config} {w : Heard} {d : ℚ} (hb : Base w.conn)
    (h : w.conn.awaitsFor d = true) : Timely cfg w (.tick d) := by
  obtain ⟨deadline, hpc, hf, hexpired, hq, hd⟩ := awaitsFor_cases h
  have htask : w.conn.keepaliveTask = .executing := hb.tasks.keepalive (by rw [hpc]; rfl)
  have honly : ∀ c, (w.conn.execs c).pc.inFlight = true → c = .keepalive := fun c hc =>
    eq_of_inFlight hb hc (congrArg ExecPc.inFlight hpc)
  refine ⟨?_, ?_, ?_, fun _ _ => nofun, ?_⟩
  · rintro _ ⟨⟩ e _ _ ⟨a, s', rfl | ⟨drain, rfl⟩, hs⟩
    · simp only [step, keepalive, htask, hpc] at hs
      cases hs
    · cases step_cases hs with
      | acquire hpc' _ _ => cases hpc'.symm.trans hpc
      | feed hfa _ => cases hfa
  · rintro _ ⟨⟩ c deadline' hpc'
    obtain rfl := honly c (congrArg ExecPc.inFlight hpc')
    have hpc' : (w.conn.execs .keepalive).pc = .awaiting deadline' := hpc'
    rw [hpc] at hpc'
    cases hpc'
    exact ⟨hexpired, hd⟩
  · rintro _ ⟨⟩ _ _ c hsending
    obtain rfl := honly c (congrArg ExecPc.inFlight hsending)
    cases hsending.symm.trans hpc
  · rintro _ ⟨⟩ _ c ⟨hfly, hripe⟩
    obtain rfl := honly c hfly
    rcases hripe with ⟨_, _, hdone⟩ | hcancel
    · cases hdone.symm.trans hf
    · cases hcancel.symm.trans hq

theorem attentive_of_check (cfg : Config) (w : Heard) (a : Action) (hb : Base w.conn)
    (h : silenceCheck w a = true) : Attentive cfg w a := by
  intro hup
  have hopen : w.conn.closed = false := (not_down_iff.mp hup).1
  unfold silenceCheck at h
  rw [hopen, Bool.false_or, Bool.and_eq_true] at h
  refine ⟨?_, keepaliveOk_of_answeredOk h.1⟩
  have hraises : ∀ b : Drain, (b != .raises) = true → b ≠ .raises := fun _ => bne_iff_ne.mp
  cases a with
  | tick d =>
    obtain hquiet | hawaits := (Bool.or_eq_true _ _).mp h.2
    · rw [Bool.and_eq_true, Option.isNone_iff_eq_none] at hquiet
      exact timely_of_sleepsFor hb hquiet.1 hquiet.2
    · exact timely_of_awaitsFor hb hawaits
  | acquire c drain =>
    refine ⟨fun _ => nofun, fun _ => nofun, fun _ => nofun, fun v d he => ?_, fun _ => nofun⟩
    cases he
    exact hraises _ h.2 rfl
  | resume c io =>
    refine ⟨fun _ => nofun, fun _ => nofun, fun _ => nofun, fun v d he => ?_, fun _ => nofun⟩
    cases he with
    | later _ _ hd => exact hraises _ h.2 hd
  | _ =>
    exact ⟨fun _ => nofun, fun _ => nofun, fun _ => nofun, fun _ _ => nofun, fun _ => nofun⟩

def silentRun : List Action :=
  [.keepalive, .tick 100, .recv (ascii "notifyx n=1"), .tick 140, .keepalive,
    .acquire .keepalive .done, .tick 10, .expire .keepalive, .resume .keepalive {}, .tick 101]

theorem silence_noticed_keepalive :
    ∃ w, Sys.run (Heard.step {}) (Heard.start {} []) silentRun = some w ∧
      w.heard = 100 ∧ w.conn.now = 351 ∧
      (w.conn.closed = true ∨ w.conn.transport.closed = true) := by
  obtain ⟨w, hw, h⟩ := Sys.exists_reach_of_guard (Heard.step {})
    (fun w a => silenceCheck w a = true) silenceCheck (Heard.start {} []) silentRun
    (fun _ _ => id) (by decide +kernel)
  have hattentive : Sys.Reach (Heard.step {}) (Attentive {}) (Heard.start {} []) w := by
    refine h.mono_inv (I := fun w => Base w.conn) (base_started {} []) (fun w a w' hb _ hs => ?_)
      (attentive_of_check {})
    obtain ⟨s, hstep, rfl⟩ := Option.map_eq_some_iff.mp hs
    exact step_base hb hstep
  have hstate := Sys.eq_of_run_map (f := fun w : Heard => (w.heard, w.conn.now)) hw
    (b := (100, 351)) (by decide +kernel)
  rw [Prod.mk.injEq] at hstate
  obtain ⟨hheard, hnow⟩ := hstate
  have hlong : w.heard + 240 + 10 < w.conn.now := by
    rw [hheard, hnow]
    decide +kernel
  exact ⟨w, hw, hheard, hnow,
    silence_noticed (by decide +kernel) (by decide +kernel) hattentive hlong⟩

end Conn
end Atsq
