import Atsq.Connection.Clock

/-!
# Is a command in flight under a deadline?

* `Timed`          a connection, and when each caller handed over its last line;
* `UnderDeadline`  no caller that has the lock has been suspended for longer than the timeout since
                   then, in `send_line` or awaiting its response, on an open connection;
* `Punctual`       the timer of a command fires at its deadline, and the task that it cancels runs;
* `SendsAtOnce`    no time passes while a caller is suspended in `send_line` on an open connection.

Main results: `in_flight_under_deadline`: the last condition is enough, and each step that breaks it
leads to a state that is not `UnderDeadline`; `stalled_send_has_no_deadline`, a run to such a state.
-/

namespace Atsq
open Py

def ExecPc.inFlight : ExecPc → Bool
  | .sending | .awaiting _ => true
  | _ => false

/-- when its timer fires -/
def ExecPc.deadline : ExecPc → Option ℚ
  | .awaiting d => some d
  | _ => none

theorem ExecPc.eq_awaiting {pc : ExecPc} {d : ℚ} (h : pc.deadline = some d) : pc = .awaiting d := by
  cases pc <;> cases h
  rfl

theorem ExecPc.eq_sending {pc : ExecPc} (h : pc.inFlight = true) (hd : pc.deadline = none) :
    pc = .sending := by
  cases pc with
  | sending => rfl
  | awaiting d => cases hd
  | _ => cases h

namespace Conn
open Session

/-! ## a call that starts -/

section
variable {cfg : Config} {s s' : Conn} {c : Caller}

theorem startExec_critical (s : Conn) (c : Caller) (line : Except RenderError Bytes) :
    ((s.startExec cfg c line).execs c).pc.critical = false := by
  rcases startExec_pc cfg s c line with h | ⟨o, h⟩ <;> rw [h] <;> rfl

theorem starts_critical {a : Action} (hb : Base s) (ha : Starts c a)
    (hs : s.step cfg a = some s') : (s'.execs c).pc.critical = false := by
  cases c with
  | task n =>
    cases a with
    | exec m cmd options blocks params =>
      cases ha
      cases step_cases hs with
      | exec _ => exact startExec_critical s _ _
      | feed hfa _ => cases hfa
    | _ => cases ha
  | keepalive =>
    cases a with
    | keepalive =>
      have still : KeepaliveIdle s → (s.execs .keepalive).pc.critical = false := fun hidle =>
        ExecPc.critical_of_free (hidle.free hb.tasks.keepalive)
      cases step_cases hs with
      | keepalive hk =>
        obtain ⟨hidle, rfl | hround⟩ := hk.round
        · exact still hidle
        · cases hround with
          | ended _ => exact still hidle
          | sleeps _ _ => exact still hidle
          | issues _ _ => exact startExec_critical _ _ _
      | feed hfa _ => cases hfa
    | _ => cases ha

end

/-! ## the deadline -/

/-- a connection, and when each caller handed its last line to `send_line` -/
structure Timed where
  conn : Conn
  handed : Caller → ℚ

def Timed.start (cfg : Config) (greeting : List Bytes) : Timed :=
  { conn := started cfg greeting, handed := fun _ => 0 }

def Timed.stamp (t : Timed) (s : Conn) (c : Caller) : ℚ :=
  if s.session.sentBy c = t.conn.session.sentBy c then t.handed c else t.conn.now

def Timed.step (cfg : Config) (t : Timed) (a : Action) : Option Timed :=
  (t.conn.step cfg a).map fun s => { conn := s, handed := t.stamp s }

def UnderDeadline (cfg : Config) (t : Timed) : Prop :=
  ∀ c, t.conn.cmdLock = some c → (t.conn.execs c).pc.inFlight = true → t.conn.closed = false →
    t.conn.now ≤ t.handed c + cfg.commandTimeout

def Punctual (t : Timed) (a : Action) : Prop :=
  ∀ d, a = .tick d → ∀ c deadline, (t.conn.execs c).pc = .awaiting deadline →
    (t.conn.execs c).expired = false ∧ t.conn.now + d ≤ deadline

def SendsAtOnce (t : Timed) (a : Action) : Prop :=
  ∀ d, a = .tick d → 0 < d → t.conn.closed = false → ∀ c, (t.conn.execs c).pc ≠ .sending

/-- what every run without a stalled `send_line` keeps -/
structure OnTime (cfg : Config) (t : Timed) : Prop where
  base : Base t.conn
  sending : t.conn.closed = false → ∀ c, (t.conn.execs c).pc = .sending → t.handed c = t.conn.now
  awaiting : t.conn.closed = false → ∀ c deadline, (t.conn.execs c).pc = .awaiting deadline →
    deadline = t.handed c + cfg.commandTimeout ∧ t.conn.now ≤ deadline

section
variable {cfg : Config} {t t' : Timed}

theorem Timed.stamp_of_steady {s : Conn} {c : Caller} (h : Steady t.conn.session s.session c) :
    t.stamp s c = t.handed c := if_pos h.sent

theorem Timed.stamp_of_sent {s : Conn} {c : Caller} {x : Sent} (hx : x.caller = c)
    (h : s.sent = t.conn.sent ++ [x]) : t.stamp s c = t.conn.now := by
  refine if_neg fun he => ?_
  have hlen := congrArg List.length he
  have hs : s.session.sentBy c = t.conn.session.sentBy c ++ [x] := by
    show s.sent.filter _ = t.conn.sent.filter _ ++ [x]
    rw [h, List.filter_append, List.filter_cons_of_pos (by simpa using hx), List.filter_nil]
  rw [hs, List.length_append, List.length_singleton] at hlen
  omega

theorem inFlight_of_critical {pc : ExecPc} (h : pc.critical = false) : pc.inFlight = false := by
  cases pc with
  | sending => cases h
  | awaiting => cases h
  | _ => rfl

structure CallOnTime (cfg : Config) (s : Conn) (handed : ℚ) (c : Caller) : Prop where
  sending : (s.execs c).pc = .sending → handed = s.now
  awaiting : ∀ deadline, (s.execs c).pc = .awaiting deadline →
    deadline = handed + cfg.commandTimeout ∧ s.now ≤ deadline

theorem CallOnTime.of_not_inFlight {s : Conn} {handed : ℚ} {c : Caller}
    (h : (s.execs c).pc.inFlight = false) : CallOnTime cfg s handed c := by
  constructor
  · intro hpc
    rw [hpc] at h
    cases h
  · intro deadline hpc
    rw [hpc] at h
    cases h

theorem step_callOnTime {s : Conn} {a : Action} (h0 : 0 ≤ cfg.commandTimeout) (h : OnTime cfg t)
    (hs : t.conn.step cfg a = some s) (hnow : s.now = t.conn.now) (hopen : s.closed = false)
    (c : Caller) : CallOnTime cfg s (t.stamp s c) c := by
  have hopen := step_open hs hopen
  by_cases hstart : Starts c a
  · exact .of_not_inFlight (inFlight_of_critical (starts_critical h.base hstart hs))
  cases step_call h.base hs c hstart with
  | still hst hpc =>
    rw [Timed.stamp_of_steady hst]
    refine ⟨fun hsend => ?_, fun deadline hd => ?_⟩
    · rw [hnow]
      exact h.sending hopen c (hpc.symm.trans hsend)
    · rw [hnow]
      exact h.awaiting hopen c deadline (hpc.symm.trans hd)
  | handOver x _ _ _ hx _ _ hsent _ _ _ hpc =>
    rw [Timed.stamp_of_sent hx hsent]
    refine ⟨fun _ => hnow.symm, fun deadline hd => ?_⟩
    rcases hpc with hpc | hpc | ⟨_, hpc, _⟩
    · cases hpc.symm.trans hd
    · cases hpc.symm.trans hd
      exact ⟨rfl, hnow.le.trans (le_add_of_nonneg_right h0)⟩
    · cases hpc.symm.trans hd
  | await hst hpc hpc' =>
    rw [Timed.stamp_of_steady hst, h.sending hopen c hpc]
    refine ⟨fun _ => hnow.symm, fun deadline hd => ?_⟩
    cases hpc'.symm.trans hd
    exact ⟨rfl, hnow.le.trans (le_add_of_nonneg_right h0)⟩
  | close p _ _ hpc' _ => exact .of_not_inFlight (by rw [hpc']; rfl)
  | answer data error _ _ _ hpc' =>
    refine .of_not_inFlight ?_
    rw [hpc']
    rcases answerPc_form cfg t.conn.now (t.conn.execs c).attempt data error with
      ⟨wake, he⟩ | ⟨o, he⟩ <;> rw [he] <;> rfl
  | stop o _ _ hpc' _ _ => exact .of_not_inFlight (by rw [hpc']; rfl)
  | retry wake _ _ he =>
    refine .of_not_inFlight ?_
    rw [he]
    rcases startAttempt_pc cfg t.conn c ((t.conn.execs c).attempt + 1) with h | h <;>
      rw [h] <;> rfl

theorem step_onTime {a : Action} (h0 : 0 ≤ cfg.commandTimeout) (h : OnTime cfg t)
    (hp : Punctual t a) (hsend : SendsAtOnce t a) (hs : t.step cfg a = some t') :
    OnTime cfg t' := by
  obtain ⟨s, hstep, rfl⟩ := Option.map_eq_some_iff.mp hs
  have hbase := step_base h.base hstep
  rcases step_now hstep with hnow | ⟨d, hd, rfl, rfl⟩
  · have hcall := step_callOnTime h0 h hstep hnow
    exact ⟨hbase, fun hc c => (hcall hc c).sending, fun hc c => (hcall hc c).awaiting⟩
  · -- time passes
    have hstamp : ∀ c, t.stamp { t.conn with now := t.conn.now + d } c = t.handed c := fun c =>
      if_pos rfl
    refine ⟨hbase, fun hc c hpc => ?_, fun hc c deadline hpc => ?_⟩
    · rcases lt_or_eq_of_le hd with hd | rfl
      · exact absurd hpc (hsend d rfl hd hc c)
      · show t.stamp _ c = t.conn.now + 0
        rw [hstamp, add_zero]
        exact h.sending hc c hpc
    · show deadline = t.stamp _ c + _ ∧ t.conn.now + d ≤ deadline
      rw [hstamp]
      exact ⟨(h.awaiting hc c deadline hpc).1, (hp d rfl c deadline hpc).2⟩

theorem OnTime.underDeadline (h0 : 0 ≤ cfg.commandTimeout) (h : OnTime cfg t) :
    UnderDeadline cfg t := by
  intro c _ hfly hopen
  cases hpc : (t.conn.execs c).pc with
  | sending =>
    rw [h.sending hopen c hpc]
    exact le_add_of_nonneg_right h0
  | awaiting deadline =>
    obtain ⟨h1, h2⟩ := h.awaiting hopen c deadline hpc
    rw [← h1]
    exact h2
  | _ =>
    rw [hpc] at hfly
    cases hfly

theorem eq_of_inFlight {s : Conn} (hb : Base s) {c c' : Caller}
    (h : (s.execs c).pc.inFlight = true) (h' : (s.execs c').pc.inFlight = true) : c = c' := by
  have holder : ∀ d, (s.execs d).pc.inFlight = true → s.cmdLock = some d := fun d hd => by
    refine (hb.session.callers d).holder.mp ?_
    by_contra hcrit
    have hfly := inFlight_of_critical (Bool.eq_false_iff.mpr hcrit)
    exact absurd hd (by rw [show (s.execs d).pc.inFlight = false from hfly]; decide)
  exact Option.some.inj ((holder c h).symm.trans (holder c' h'))

/-- no timer runs while a caller is suspended in `send_line` -/
theorem punctual_of_sending (hb : Base t.conn) {c : Caller} (hpc : (t.conn.execs c).pc = .sending)
    (a : Action) : Punctual t a := by
  rintro d rfl c' deadline hpc'
  have hfly : (t.conn.execs c).pc.inFlight = true := by rw [hpc]; rfl
  have hfly' : (t.conn.execs c').pc.inFlight = true := by rw [hpc']; rfl
  rw [eq_of_inFlight hb hfly hfly', hpc'] at hpc
  cases hpc

theorem step_tick {d : ℚ} (hd : 0 ≤ d) : t.step cfg (.tick d)
    = some { conn := { t.conn with now := t.conn.now + d }, handed := t.handed } := by
  have hstep : t.conn.step cfg (.tick d) = some { t.conn with now := t.conn.now + d } := if_pos hd
  unfold Timed.step
  rw [hstep]
  refine congrArg some (congrArg (Timed.mk _) (funext fun c => ?_))
  exact if_pos rfl

/-- once a `send_line` is stalled, a caller is in flight for too long -/
theorem exists_late (h0 : 0 ≤ cfg.commandTimeout) (h : OnTime cfg t) {a : Action}
    (ha : ¬ SendsAtOnce t a) (hs : t.step cfg a = some t') :
    ∃ t'', Sys.Reach (Timed.step cfg) Punctual t' t'' ∧ ¬ UnderDeadline cfg t'' := by
  unfold SendsAtOnce at ha
  push Not at ha
  obtain ⟨d, rfl, hd, hopen, c, hpc⟩ := ha
  rw [step_tick (le_of_lt hd)] at hs
  cases hs
  have htick : t.conn.step cfg (.tick d) = some { t.conn with now := t.conn.now + d } :=
    if_pos (le_of_lt hd)
  have hb := step_base h.base htick
  let t₁ : Timed := { conn := { t.conn with now := t.conn.now + d }, handed := t.handed }
  have hpunctual : Punctual t₁ (.tick cfg.commandTimeout) := punctual_of_sending (t := t₁) hb hpc _
  refine ⟨_, Sys.Reach.init.step hpunctual (step_tick h0), fun hlate => ?_⟩
  have hlock : t.conn.cmdLock = some c := (h.base.session.callers c).holder.mp (by
    show (t.conn.execs c).pc.critical = true
    rw [hpc]
    rfl)
  have hle := hlate c hlock (by
    show (t.conn.execs c).pc.inFlight = true
    rw [hpc]
    rfl) hopen
  have hle : t.conn.now + d + cfg.commandTimeout ≤ t.handed c + cfg.commandTimeout := hle
  rw [h.sending hopen c hpc] at hle
  exact absurd (le_of_add_le_add_right hle) (not_le.mpr (lt_add_of_pos_right _ hd))

/-- **A command in flight is under a deadline** in every run without a stalled `send_line`, and from
every such state, time that passes during a `send_line` leads to one where it is not. -/
theorem in_flight_under_deadline {greeting : List Bytes} (h0 : 0 ≤ cfg.commandTimeout)
    (h : Sys.Reach (Timed.step cfg) (fun t a => Punctual t a ∧ SendsAtOnce t a)
      (Timed.start cfg greeting) t) :
    UnderDeadline cfg t ∧
      ∀ a t', Punctual t a → ¬ SendsAtOnce t a → t.step cfg a = some t' →
        ∃ t'', Sys.Reach (Timed.step cfg) Punctual t' t'' ∧ ¬ UnderDeadline cfg t'' := by
  have hstart : OnTime cfg (Timed.start cfg greeting) :=
    ⟨base_started cfg greeting, fun _ _ => nofun, fun _ _ _ => nofun⟩
  have hon : OnTime cfg t := h.inv hstart fun _ _ _ hi ha hs => step_onTime h0 hi ha.1 ha.2 hs
  exact ⟨hon.underDeadline h0, fun a t' _ ha hs => exists_late h0 hon ha hs⟩

end

def noTick : Action → Bool
  | .tick _ => false
  | _ => true

theorem onTime_of_noTick (t : Timed) (a : Action) (h : noTick a = true) :
    Punctual t a ∧ SendsAtOnce t a := by
  constructor
  · rintro d rfl
    cases h
  · rintro d rfl
    cases h

theorem reach_timed {cfg : Config} {greeting : List Bytes} {C : Timed → Action → Prop} {t : Timed}
    (h : Sys.Reach (Timed.step cfg) C (Timed.start cfg greeting) t) : Base t.conn := by
  refine h.inv (I := fun t => Base t.conn) (base_started cfg greeting) fun t a t' hb _ hs => ?_
  obtain ⟨s, hstep, rfl⟩ := Option.map_eq_some_iff.mp hs
  exact step_base hb hstep

def awaitingRun : List Action :=
  [.keepalive, .exec 0 (lit "version") [] none [], .acquire (.task 0) .suspends,
    .resume (.task 0) {}]

/-- the whole timeout passes while the command awaits its response -/
theorem in_flight_under_deadline_awaiting :
    ∃ t t', Sys.run (Timed.step {}) (Timed.start {} []) awaitingRun = some t ∧
      t.step {} (.tick 10) = some t' ∧ t'.conn.now = 10 ∧ UnderDeadline {} t' := by
  obtain ⟨t, ht, h⟩ := Sys.exists_reach_of_guard (Timed.step {})
    (fun t a => Punctual t a ∧ SendsAtOnce t a) (fun _ a => noTick a) (Timed.start {} [])
    awaitingRun onTime_of_noTick (by decide +kernel)
  have hstate := Sys.eq_of_run_map (f := fun t : Timed =>
    ((t.conn.execs (.task 0)).pc.deadline, (t.conn.execs (.task 0)).expired, t.conn.now)) ht
    (b := (some 10, false, 0)) (by decide +kernel)
  rw [Prod.mk.injEq, Prod.mk.injEq] at hstate
  obtain ⟨hdeadline, hexpired, hnow⟩ := hstate
  have hpc := ExecPc.eq_awaiting hdeadline
  have hfly : (t.conn.execs (.task 0)).pc.inFlight = true := by rw [hpc]; rfl
  have honly : ∀ c, (t.conn.execs c).pc.inFlight = true → c = .task 0 := fun c hc =>
    eq_of_inFlight (reach_timed h) hc hfly
  have hpunctual : Punctual t (.tick 10) := by
    rintro d ⟨⟩ c deadline hc
    obtain rfl := honly c (by rw [hc]; rfl)
    rw [hpc] at hc
    cases hc
    rw [hnow]
    exact ⟨hexpired, by decide +kernel⟩
  have hsends : SendsAtOnce t (.tick 10) := by
    rintro d ⟨⟩ _ _ c hc
    obtain rfl := honly c (by rw [hc]; rfl)
    rw [hpc] at hc
    cases hc
  have htick : t.step {} (.tick 10) = _ := step_tick (by decide +kernel)
  refine ⟨t, _, ht, htick, ?_, ?_⟩
  · show t.conn.now + 10 = 10
    rw [hnow]
    decide +kernel
  · exact (in_flight_under_deadline (by decide +kernel) (h.step ⟨hpunctual, hsends⟩ htick)).1

def stalledRun : List Action :=
  [.keepalive, .exec 0 (lit "version") [] none [], .acquire (.task 0) .suspends]

/-- **A stalled `send_line` has no deadline**: after 11 seconds, with a timeout of 10, the caller
still has the lock, and the connection is open. -/
theorem stalled_send_has_no_deadline :
    ∃ t t', Sys.run (Timed.step {}) (Timed.start {} []) stalledRun = some t ∧
      t.step {} (.tick 11) = some t' ∧
      Sys.Reach (Timed.step {}) Punctual (Timed.start {} []) t' ∧ ¬ UnderDeadline {} t' := by
  obtain ⟨t, ht, h⟩ := Sys.exists_reach_of_guard (Timed.step {}) Punctual (fun _ a => noTick a)
    (Timed.start {} []) stalledRun (fun t a ha => (onTime_of_noTick t a ha).1) (by decide +kernel)
  have hstate := Sys.eq_of_run_map (f := fun t : Timed =>
    ((t.conn.execs (.task 0)).pc.inFlight, (t.conn.execs (.task 0)).pc.deadline, t.conn.cmdLock,
      t.conn.closed, t.conn.now, t.handed (.task 0))) ht
    (b := (true, none, some (.task 0), false, 0, 0)) (by decide +kernel)
  simp only [Prod.mk.injEq] at hstate
  obtain ⟨hfly, hdeadline, hlock, hopen, hnow, hhanded⟩ := hstate
  have hpc := ExecPc.eq_sending hfly hdeadline
  have htick : t.step {} (.tick 11) = _ := step_tick (by decide +kernel)
  have hpunctual := punctual_of_sending (reach_timed h) hpc (.tick 11)
  refine ⟨t, _, ht, htick, h.step hpunctual htick, fun hlate => ?_⟩
  have hle : t.conn.now + 11 ≤ t.handed (.task 0) + 10 := hlate (.task 0) hlock hfly hopen
  rw [hnow, hhanded] at hle
  exact absurd hle (by decide +kernel)

end Conn
end Atsq
