import Atsq.Connection.Clock

/-!
# When does the keepalive loop issue a `whoami`?

* `Watched`        a connection, when its last command was in flight, and when the lines were sent
                   or answered;
* `Prompt`         exact time: none passes while the keepalive task could run on;
* `KeepaliveOk`    no keepalive has got an answer other than id 0;
* `AtIdleness`     asleep for the interval at most, and issuing a `whoami` after it and not before.

Main result: `keepalive_at_idleness`.
-/

namespace Atsq
open Py

/-! ## a caller that nobody cancels -/

namespace Session

theorem uncancelled_settle {v : Session} {c : Caller} (h : (v.execs c).cancelReq = false)
    (f : Future) : ((v.settle f).execs c).cancelReq = false := by
  rcases v.settle_cases with ⟨d, _, _, hset⟩ | ⟨_, hset⟩
  · rw [hset]
    by_cases hd : c = d
    · subst hd
      rw [setExec_self]
      exact h
    · rw [setExec_of_ne v _ hd]
      exact h
  · rw [hset]
    exact h

def Uncancelled (v : Session) (c : Caller) : Prop :=
  v.closed = true ∨ (v.execs c).cancelReq = false

theorem Move.uncancelled {P : Policy} {v w : Session} (hm : Move P v w) {c : Caller}
    (hP : P.cancel v c → v.closed = true) (h : v.Uncancelled c) : w.Uncancelled c := by
  by_cases hclosed : v.closed = true
  · exact Or.inl (hm.sent_of_closed hclosed).2
  have hq : (v.execs c).cancelReq = false := h.resolve_left hclosed
  have other : ∀ {u : Session} {d : Caller} {e : Exec}, u.execs = v.execs →
      (d = c → e.cancelReq = false) → ((u.setExec d e).execs c).cancelReq = false := by
    intro u d e hu he
    by_cases hd : d = c
    · subst hd
      rw [setExec_self]
      exact he rfl
    · rw [setExec_of_ne u e (Ne.symm hd), hu]
      exact hq
  cases hm with
  | start d e _ _ _ he => exact Or.inr (other rfl fun _ => he)
  | outside d e _ _ _ _ he => exact Or.inr (other rfl (by rintro rfl; exact he.trans hq))
  | handOver d => exact Or.inr (other rfl (by rintro rfl; exact hq))
  | await d => exact Or.inr (other rfl (by rintro rfl; exact hq))
  | close d => exact Or.inr (other rfl (by rintro rfl; exact hq))
  | cancel d hd => exact Or.inr (other rfl (by rintro rfl; exact absurd (hP hd) hclosed))
  | expire d =>
    exact Or.inr (other rfl (by rintro rfl; exact (v.execs _).expire_cancelReq.trans hq))
  | expireClose d =>
    exact Or.inr (other rfl (by rintro rfl; exact (v.execs _).expire_cancelReq.trans hq))
  | complete d => exact Or.inr (other rfl (by rintro rfl; exact hq))
  | leave d => exact Or.inr (other rfl (by rintro rfl; exact hq))
  | recv line =>
    unfold Session.recv
    split
    · split
      · exact Or.inr (uncancelled_settle (v := { v with
          received := v.received ++ [line], dataBuffer := [] }) hq _)
      · exact Or.inr (uncancelled_settle (v := { v with
          received := v.received ++ [line], dataBuffer := [], closed := true }) hq _)
    · split <;> exact Or.inr hq
  | shutdown => exact Or.inr (uncancelled_settle (v := { v with closed := true }) hq _)
  | lose => exact Or.inr hq

end Session

namespace Conn
open Session

section
variable {cfg : Config} {s s' : Conn} {a : Action}

/-- nobody but `_shutdown` and `close` cancels the keepalive task -/
theorem step_uncancelled (hb : Base s) (hs : s.step cfg a = some s')
    (h : s.session.Uncancelled .keepalive) : s'.session.Uncancelled .keepalive := by
  let P : Policy := { anyPolicy with cancel := fun v c => c = .keepalive → v.closed = true }
  have hallowed : Allowed P s a :=
    { allowed_any s a with
      cancel := fun _ _ => Caller.noConfusion
      cancelKeepalive := fun _ hc _ => hc }
  exact inv_moves_of (I := fun v => v.Uncancelled .keepalive)
    (fun _ _ _ h hm => hm.uncancelled (fun hcancel : P.cancel _ .keepalive => hcancel rfl) h)
    (step_moves hb.session hb.tasks hallowed hs) hb.session h

/-! ## the loop -/

/-- every keepalive so far has been answered with id 0, or is not answered yet -/
structure KeepaliveOk (s : Conn) : Prop where
  answered : ∀ o, (s.execs .keepalive).pc = .finished o → ∃ rows, o = .rows rows
  retry : ∀ wake, (s.execs .keepalive).pc ≠ .sleeping wake

/-- as long as all is well, the keepalive task goes round its loop -/
theorem round_keepalive (hq : (s.execs .keepalive).cancelReq = false) (hok : KeepaliveOk s)
    (hs : s.keepalive cfg = some s') : Round cfg s s' := by
  have hloop := round_keepaliveLoop cfg s
  unfold keepalive at hs
  split at hs
  · cases hs
  · cases hs
  · rw [if_neg (by rw [hq]; decide)] at hs
    cases hs
    exact hloop
  · rw [if_neg (by rw [hq]; decide)] at hs
    split at hs <;> cases hs
    exact hloop
  · split at hs
    · cases hs
      exact hloop
    · rename_i o hnot hpc
      obtain ⟨rows, rfl⟩ := hok.answered o hpc
      exact absurd rfl (hnot rows)
    · cases hs

structure OnDuty (cfg : Config) (s : Conn) : Prop where
  uncancelled : (s.execs .keepalive).cancelReq = false
  alive : s.keepaliveTask ≠ .absent ∧ s.keepaliveTask ≠ .ended
  called : s.keepaliveTask = .executing → (s.execs .keepalive).pc ≠ .idle
  wake : ∀ wake, s.keepaliveTask = .sleeping wake → wake ≤ s.lastActivity + cfg.keepaliveInterval

theorem step_called {c : Caller} (hb : Base s) (hs : s.step cfg a = some s') (ha : ¬ Starts c a)
    (h : (s.execs c).pc ≠ .idle) : (s'.execs c).pc ≠ .idle := by
  have other : ∀ {pc : ExecPc}, (s'.execs c).pc = pc → pc ≠ .idle → (s'.execs c).pc ≠ .idle :=
    fun hpc hne => hpc ▸ hne
  cases step_call hb hs c ha with
  | still _ hpc => exact other hpc h
  | handOver _ _ _ _ _ _ _ _ _ _ _ hpc =>
    rcases hpc with hpc | hpc | ⟨_, hpc, _⟩ <;> exact other hpc nofun
  | await _ _ hpc => exact other hpc nofun
  | close _ _ _ hpc _ => exact other hpc nofun
  | answer data error _ _ _ hpc =>
    rcases answerPc_form cfg s.now (s.execs c).attempt data error with ⟨wake, he⟩ | ⟨o, he⟩
    · exact other (hpc.trans he) nofun
    · exact other (hpc.trans he) nofun
  | stop _ _ _ hpc _ _ => exact other hpc nofun
  | retry _ _ _ he =>
    subst he
    rcases startAttempt_pc cfg s c ((s.execs c).attempt + 1) with hpc | hpc
    · exact other hpc nofun
    · exact other hpc nofun

theorem lastActivity_le (h : s.lastActivity ≤ s.now) (hs : s.step cfg a = some s') :
    s.lastActivity ≤ s'.lastActivity := by
  cases step_clock hs with
  | quiet hsame _ => exact hsame.lastActivity.ge
  | touch _ _ ht _ => exact h.trans ht.lastActivity.ge
  | tick _ _ _ he => exact he ▸ le_rfl

theorem step_onDuty (hb : Base s) (hok : KeepaliveOk s) (hlast : s.lastActivity ≤ s.now)
    (hs : s.step cfg a = some s') (hopen : s'.closed = false) (h : OnDuty cfg s) :
    OnDuty cfg s' := by
  have huncancelled : (s'.execs .keepalive).cancelReq = false :=
    (step_uncancelled hb hs (Or.inr h.uncancelled)).resolve_left fun hclosed => by
      rw [show s'.closed = true from hclosed] at hopen
      cases hopen
  by_cases hk : a = .keepalive
  · subst hk
    cases round_keepalive h.uncancelled hok hs with
    | ended hclosed =>
      rw [step_open hs hopen] at hclosed
      cases hclosed
    | sleeps _ _ =>
      refine ⟨huncancelled, ⟨nofun, nofun⟩, nofun, fun wake hw => ?_⟩
      cases hw
      exact le_rfl
    | issues _ _ =>
      refine ⟨huncancelled, ?_, fun _ => ?_, fun wake hw => ?_⟩
      · rw [keepaliveTask_startExec]
        exact ⟨nofun, nofun⟩
      · rcases startExec_pc cfg { s with keepaliveTask := .executing } .keepalive
          (renderCommand (lit "whoami") [] none []) with hpc | ⟨o, hpc⟩ <;> rw [hpc] <;> nofun
      · rw [keepaliveTask_startExec] at hw
        cases hw
  · have hsame := (step_effect hb.tasks hs).sameKeepalive.resolve_left hk
    have hstart : ¬ Starts .keepalive a := fun hstart => by
      cases a <;> first | exact hk rfl | cases hstart
    refine ⟨huncancelled, ?_, fun he => ?_, fun wake hw => ?_⟩
    · rw [hsame]
      exact h.alive
    · rw [hsame] at he
      exact step_called hb hs hstart (h.called he)
    · rw [hsame] at hw
      exact (h.wake wake hw).trans (add_le_add_left (lastActivity_le hlast hs) _)

/-! ## exact time -/

/-- the keepalive task can run on, in its loop or from the lock -/
def KeepaliveRuns (cfg : Config) (s : Conn) : Prop :=
  ∃ a s', (a = .keepalive ∨ ∃ drain, a = .acquire .keepalive drain) ∧ s.step cfg a = some s'

/-- no time passes while the keepalive task can run on -/
def Prompt (cfg : Config) (s : Conn) (a : Action) : Prop :=
  ∀ d, a = .tick d → ∀ e, 0 ≤ e → e < d → ¬ KeepaliveRuns cfg { s with now := s.now + e }

/-- without a command in flight, only a sleep keeps the keepalive task from running on -/
theorem asleep_of_not_runs (h : OnDuty cfg s) (hok : KeepaliveOk s) (hb : Base s)
    (hlock : s.cmdLock = none) (hruns : ¬ KeepaliveRuns cfg s) :
    ∃ wake, s.keepaliveTask = .sleeping wake ∧ s.now < wake := by
  have hnone : s.keepalive cfg = none := by
    cases hs : s.keepalive cfg with
    | none => rfl
    | some s' => exact absurd ⟨.keepalive, s', Or.inl rfl, hs⟩ hruns
  unfold keepalive at hnone
  cases htask : s.keepaliveTask with
  | absent => exact absurd htask h.alive.1
  | ended => exact absurd htask h.alive.2
  | ready =>
    simp only [htask, h.uncancelled] at hnone
    cases hnone
  | sleeping wake =>
    simp only [htask, h.uncancelled] at hnone
    refine ⟨wake, rfl, ?_⟩
    by_contra hle
    rw [if_neg (by decide), if_pos (not_lt.mp hle)] at hnone
    cases hnone
  | executing =>
    exfalso
    simp only [htask] at hnone
    cases hpc : (s.execs .keepalive).pc with
    | idle => exact h.called htask hpc
    | locking =>
      refine hruns ⟨.acquire .keepalive .done, s.execLine cfg .keepalive .done,
        Or.inr ⟨_, rfl⟩, ?_⟩
      simp only [step, hpc, hlock, h.uncancelled]
      rfl
    | sleeping wake => exact hok.retry wake hpc
    | finished o =>
      obtain ⟨rows, rfl⟩ := hok.answered o hpc
      rw [hpc] at hnone
      cases hnone
    | _ =>
      have hcrit : (s.execs .keepalive).pc.critical = true := by rw [hpc]; rfl
      have hown := (hb.session.callers .keepalive).holder.mp hcrit
      cases hown.symm.trans hlock

end

/-! ## idle time -/

/-- a connection, when a command was in flight last, and when lines were sent or answered -/
structure Watched where
  conn : Conn
  busy : ℚ := 0
  lines : List ℚ := []

def Watched.start (cfg : Config) (greeting : List Bytes) : Watched :=
  { conn := started cfg greeting }

/-- when the step sends or answers a line -/
def lineTimes (s s' : Conn) (a : Action) : List ℚ :=
  match a.caller with
  | some c => if sentOrAnswered (s.execs c).pc (s'.execs c).pc then [s'.now] else []
  | none => []

def Watched.next (w : Watched) (a : Action) (s : Conn) : Watched where
  conn := s
  busy := if w.conn.cmdLock.isSome || s.cmdLock.isSome then s.now else w.busy
  lines := w.lines ++ lineTimes w.conn s a

def Watched.step (cfg : Config) (w : Watched) (a : Action) : Option Watched :=
  (w.conn.step cfg a).map (w.next a)

/-- asleep for the interval at most, and issuing a `whoami` after it and not before -/
structure AtIdleness (cfg : Config) (w : Watched) : Prop where
  asleep : ∀ wake, w.conn.keepaliveTask = .sleeping wake →
    wake ≤ w.conn.lastActivity + cfg.keepaliveInterval
  due : ∀ s, w.conn.step cfg .keepalive = some s → s.keepaliveTask = .executing →
    w.conn.lastActivity + cfg.keepaliveInterval ≤ w.conn.now
  /-- what is issued is the rendered `whoami` -/
  line : ∀ s, w.conn.step cfg .keepalive = some s → s.keepaliveTask = .executing →
    (s.execs .keepalive).line = ascii "whoami"
  /-- without a command in flight, none has been for the interval at most -/
  idle : w.conn.cmdLock = none → w.conn.now ≤ w.busy + cfg.keepaliveInterval
  /-- at the end of it the loop issues a `whoami`, or has issued one, and the lock is free for it -/
  issues : w.conn.cmdLock = none → w.conn.now = w.busy + cfg.keepaliveInterval →
    (∃ s, w.conn.step cfg .keepalive = some s ∧ s.keepaliveTask = .executing) ∨
    ∃ drain s, w.conn.step cfg (.acquire .keepalive drain) = some s
  spaced : ∀ s, w.conn.step cfg .keepalive = some s → s.keepaliveTask = .executing →
    ∀ t ∈ w.lines, t + cfg.keepaliveInterval ≤ w.conn.now

structure Recorded (w : Watched) : Prop where
  busy : w.conn.lastActivity ≤ w.busy
  now : w.busy ≤ w.conn.now
  lines : ∀ t ∈ w.lines, t ≤ w.conn.lastActivity

section
variable {cfg : Config} {w : Watched} {s : Conn} {a : Action}

theorem Recorded.lastActivity (h : Recorded w) : w.conn.lastActivity ≤ w.conn.now :=
  h.busy.trans h.now

theorem mem_lineTimes {s s' : Conn} {t : ℚ} (h : t ∈ lineTimes s s' a) :
    t = s'.now ∧ ∃ c, a.caller = some c ∧
      sentOrAnswered (s.execs c).pc (s'.execs c).pc = true := by
  unfold lineTimes at h
  split at h
  · rename_i c hc
    split at h
    · rename_i hline
      exact ⟨List.mem_singleton.mp h, c, hc, hline⟩
    · exact absurd h List.not_mem_nil
  · exact absurd h List.not_mem_nil

theorem busy_cases (w : Watched) (a : Action) (s : Conn) : (w.next a s).busy = s.now ∨
    (w.next a s).busy = w.busy ∧ w.conn.cmdLock = none ∧ s.cmdLock = none := by
  unfold Watched.next
  cases hlock : w.conn.cmdLock with
  | some c => exact Or.inl rfl
  | none =>
    cases hlock' : s.cmdLock with
    | some c => exact Or.inl rfl
    | none => exact Or.inr ⟨rfl, rfl, rfl⟩

theorem busy_of_lock {c : Caller} (hb : Base w.conn)
    (hlock : (w.conn.execs c).pc.critical = true ∨ s.cmdLock = some c) :
    (w.next a s).busy = s.now := by
  rcases busy_cases w a s with h | ⟨_, hnone, hnone'⟩
  · exact h
  · rcases hlock with hcrit | hheld
    · have hheld := (hb.session.callers c).holder.mp hcrit
      cases hheld.symm.trans hnone
    · cases hheld.symm.trans hnone'

theorem step_recorded (hb : Base w.conn) (hs : w.conn.step cfg a = some s) (h : Recorded w) :
    Recorded (w.next a s) := by
  have hlast := lastActivity_le h.lastActivity hs
  have hold : ∀ t ∈ w.lines, t ≤ s.lastActivity := fun t ht => (h.lines t ht).trans hlast
  have hbusy := busy_cases w a s
  cases step_clock hs with
  | quiet hsame hquiet =>
    have hquiet : ∀ t ∈ lineTimes w.conn s a, t ≤ s.lastActivity := fun t ht => by
      obtain ⟨_, c, hc, hline⟩ := mem_lineTimes ht
      rw [hquiet c hc] at hline
      cases hline
    refine ⟨?_, ?_, fun t ht => (List.mem_append.mp ht).elim (hold t) (hquiet t)⟩
    · rcases hbusy with he | ⟨he, _⟩ <;> rw [he]
      · exact (hsame.lastActivity.le.trans h.lastActivity).trans hsame.now.ge
      · exact hsame.lastActivity.le.trans h.busy
    · rcases hbusy with he | ⟨he, _⟩
      · exact he.le
      · exact he.le.trans (h.now.trans hsame.now.ge)
  | touch c hc ht hlock =>
    have hnow : s.lastActivity = s.now := ht.lastActivity.trans ht.now.symm
    have he : (w.next a s).busy = s.now := busy_of_lock hb hlock
    refine ⟨?_, he.le, fun t ht => (List.mem_append.mp ht).elim (hold t) fun ht => ?_⟩
    · rw [he]
      exact hnow.le
    · rw [(mem_lineTimes ht).1]
      exact hnow.ge
  | tick d ha hd hafter =>
    have hnow : w.conn.now ≤ s.now := by
      rw [hafter]
      exact le_add_of_nonneg_right hd
    have hsame : s.lastActivity = w.conn.lastActivity := by rw [hafter]
    refine ⟨?_, ?_, fun t ht => (List.mem_append.mp ht).elim (hold t) fun ht => ?_⟩
    · rcases hbusy with he | ⟨he, _⟩ <;> rw [he]
      · exact hsame.le.trans (h.lastActivity.trans hnow)
      · exact hsame.le.trans h.busy
    · rcases hbusy with he | ⟨he, _⟩
      · exact he.le
      · exact he.le.trans (h.now.trans hnow)
    · obtain ⟨_, c, hc, _⟩ := mem_lineTimes ht
      rw [ha] at hc
      cases hc

/-- without a command in flight, none has been for the interval at most -/
def IdleBound (cfg : Config) (w : Watched) : Prop :=
  w.conn.cmdLock = none → w.conn.now ≤ w.busy + cfg.keepaliveInterval

theorem step_idleBound (hT : 0 < cfg.keepaliveInterval) (hb : Base w.conn) (hr : Recorded w)
    (hduty : OnDuty cfg w.conn) (hok : KeepaliveOk w.conn) (hp : Prompt cfg w.conn a)
    (hs : w.conn.step cfg a = some s) (h : IdleBound cfg w) : IdleBound cfg (w.next a s) := by
  intro hlock'
  rcases busy_cases w a s with he | ⟨he, hlock, _⟩
  · rw [he]
    exact le_add_of_nonneg_right hT.le
  rw [he]
  show s.now ≤ _
  rcases step_now hs with hnow | ⟨d, _, rfl, rfl⟩
  · rw [hnow]
    exact h hlock
  -- when the interval is over the keepalive task would still sleep, past its wake-up time
  by_contra hlate
  let e := w.busy + cfg.keepaliveInterval - w.conn.now
  have he0 : 0 ≤ e := sub_nonneg.mpr (h hlock)
  have hed : e < d := sub_lt_iff_lt_add'.mpr (not_le.mp hlate)
  let s₁ : Conn := { w.conn with now := w.conn.now + e }
  have htick : w.conn.step cfg (.tick e) = some s₁ := if_pos he0
  have hduty' : OnDuty cfg s₁ := ⟨hduty.uncancelled, hduty.alive, hduty.called, hduty.wake⟩
  obtain ⟨wake, hasleep, hwake⟩ := asleep_of_not_runs hduty' ⟨hok.answered, hok.retry⟩
    (step_base hb htick) hlock (hp d rfl e he0 hed)
  have hnow : s₁.now = w.busy + cfg.keepaliveInterval := add_sub_cancel _ _
  have hle : wake ≤ w.busy + cfg.keepaliveInterval :=
    (hduty.wake wake hasleep).trans (add_le_add_left hr.busy _)
  exact absurd (hwake.trans_le hle) (by rw [hnow]; exact lt_irrefl _)

/-! ## every run -/

structure Kept (cfg : Config) (w : Watched) : Prop where
  base : Base w.conn
  recorded : Recorded w
  duty : w.conn.closed = false → OnDuty cfg w.conn
  idle : w.conn.closed = false → IdleBound cfg w

theorem kept_start (hT : 0 < cfg.keepaliveInterval) (greeting : List Bytes) :
    Kept cfg (Watched.start cfg greeting) where
  base := base_started cfg greeting
  recorded := ⟨le_rfl, le_rfl, fun _ h => absurd h List.not_mem_nil⟩
  duty _ := by
    have htask : (started cfg greeting).keepaliveTask = .ready := if_pos hT
    refine ⟨rfl, ?_, ?_, fun wake hw => ?_⟩
    · show (started cfg greeting).keepaliveTask ≠ _ ∧ (started cfg greeting).keepaliveTask ≠ _
      rw [htask]
      exact ⟨nofun, nofun⟩
    · intro he
      cases htask.symm.trans he
    · cases htask.symm.trans hw
  idle _ _ := le_add_of_nonneg_right hT.le

theorem step_kept {w' : Watched} (hT : 0 < cfg.keepaliveInterval) (h : Kept cfg w)
    (hp : Prompt cfg w.conn a) (hok : KeepaliveOk w.conn) (hs : w.step cfg a = some w') :
    Kept cfg w' := by
  obtain ⟨s, hstep, rfl⟩ := Option.map_eq_some_iff.mp hs
  have hopen : s.closed = false → w.conn.closed = false := step_open hstep
  exact
    { base := step_base h.base hstep
      recorded := step_recorded h.base hstep h.recorded
      duty := fun hc => step_onDuty h.base hok h.recorded.lastActivity hstep hc (h.duty (hopen hc))
      idle := fun hc => step_idleBound hT h.base h.recorded (h.duty (hopen hc)) hok hp hstep
        (h.idle (hopen hc)) }

theorem due_of_issues (hduty : OnDuty cfg s) (hok : KeepaliveOk s) {s' : Conn}
    (hs : s.step cfg .keepalive = some s') (htask : s'.keepaliveTask = .executing) :
    s.lastActivity + cfg.keepaliveInterval ≤ s.now := by
  cases round_keepalive hduty.uncancelled hok hs with
  | ended _ => cases htask
  | sleeps _ _ => cases htask
  | issues _ hdue => exact hdue

theorem line_startExec (cfg : Config) (s : Conn) (c : Caller) (line : Bytes) :
    ((s.startExec cfg c (.ok line)).execs c).line = line := by
  unfold startExec startAttempt finish
  simp only []
  split <;> rw [setExec_self, setExec_self]

theorem line_of_issues (hduty : OnDuty cfg s) (hok : KeepaliveOk s) {s' : Conn}
    (hs : s.step cfg .keepalive = some s') (htask : s'.keepaliveTask = .executing) :
    (s'.execs .keepalive).line = ascii "whoami" := by
  have hwhoami : renderCommand (lit "whoami") [] none [] = .ok (ascii "whoami") := by
    decide +kernel
  cases round_keepalive hduty.uncancelled hok hs with
  | ended _ => cases htask
  | sleeps _ _ => cases htask
  | issues _ _ =>
    rw [hwhoami]
    exact line_startExec cfg _ _ _

theorem executing_of_round {s s' : Conn} (hround : Round cfg s s') (hopen : s.closed = false)
    (hdue : s.lastActivity + cfg.keepaliveInterval ≤ s.now) : s'.keepaliveTask = .executing := by
  cases hround with
  | ended hclosed =>
    rw [hopen] at hclosed
    cases hclosed
  | sleeps _ hearly => exact absurd hdue (not_le.mpr hearly)
  | issues _ _ => exact keepaliveTask_startExec cfg s _

theorem issues_of_idle (hb : Base w.conn) (hr : Recorded w) (hduty : OnDuty cfg w.conn)
    (hok : KeepaliveOk w.conn) (hopen : w.conn.closed = false) (hlock : w.conn.cmdLock = none)
    (hnow : w.conn.now = w.busy + cfg.keepaliveInterval) :
    (∃ s, w.conn.step cfg .keepalive = some s ∧ s.keepaliveTask = .executing) ∨
    ∃ drain s, w.conn.step cfg (.acquire .keepalive drain) = some s := by
  have hdue : w.conn.lastActivity + cfg.keepaliveInterval ≤ w.conn.now := by
    rw [hnow]
    exact add_le_add_left hr.busy _
  have hruns : KeepaliveRuns cfg w.conn := by
    by_contra hruns
    obtain ⟨wake, hasleep, hwake⟩ := asleep_of_not_runs hduty hok hb hlock hruns
    exact absurd ((hduty.wake wake hasleep).trans hdue) (not_le.mpr hwake)
  obtain ⟨a, s, rfl | ⟨drain, rfl⟩, hs⟩ := hruns
  · have hround := round_keepalive hduty.uncancelled hok hs
    exact Or.inl ⟨s, hs, executing_of_round hround hopen hdue⟩
  · exact Or.inr ⟨drain, s, hs⟩

/-- **The keepalive at idleness.**  With exact time, as long as every keepalive has been answered
with id 0, the loop on an open connection is neither late nor early. -/
theorem keepalive_at_idleness {greeting : List Bytes} (hT : 0 < cfg.keepaliveInterval)
    (h : Sys.Reach (Watched.step cfg) (fun w a => Prompt cfg w.conn a ∧ KeepaliveOk w.conn)
      (Watched.start cfg greeting) w)
    (hok : KeepaliveOk w.conn) (hopen : w.conn.closed = false) : AtIdleness cfg w := by
  have hkept : Kept cfg w := h.inv (kept_start hT greeting) fun _ _ _ hk hC hs =>
    step_kept hT hk hC.1 hC.2 hs
  have hduty := hkept.duty hopen
  have hdue : ∀ s, w.conn.step cfg .keepalive = some s → s.keepaliveTask = .executing →
      w.conn.lastActivity + cfg.keepaliveInterval ≤ w.conn.now :=
    fun _ hs htask => due_of_issues hduty hok hs htask
  exact
    { asleep := hduty.wake
      due := hdue
      line := fun _ hs htask => line_of_issues hduty hok hs htask
      idle := hkept.idle hopen
      issues := issues_of_idle hkept.base hkept.recorded hduty hok hopen
      spaced := fun s hs htask t ht =>
        (add_le_add_left (hkept.recorded.lines t ht) _).trans (hdue s hs htask) }

end

def sleepsFor (s : Conn) (d : ℚ) : Bool :=
  match s.keepaliveTask with
  | .sleeping wake => (s.execs .keepalive).pc.free && !(s.execs .keepalive).cancelReq &&
      decide (s.now + d ≤ wake)
  | _ => false

def answeredOk (s : Conn) : Bool :=
  match (s.execs .keepalive).pc with
  | .finished (.rows _) => true
  | .finished _ | .sleeping _ => false
  | _ => true

def idlenessCheck (w : Watched) (a : Action) : Bool :=
  w.conn.answeredOk && match a with
  | .tick d => w.conn.sleepsFor d
  | _ => true

theorem keepaliveOk_of_answeredOk {s : Conn} (h : s.answeredOk = true) : KeepaliveOk s := by
  unfold answeredOk at h
  constructor
  · intro o hpc
    rw [hpc] at h
    cases o with
    | rows rows => exact ⟨rows, rfl⟩
    | _ => cases h
  · intro wake hpc
    rw [hpc] at h
    cases h

theorem not_runs_of_sleepsFor {cfg : Config} {s : Conn} {d e : ℚ} (h : s.sleepsFor d = true)
    (hed : e < d) : ¬ KeepaliveRuns cfg { s with now := s.now + e } := by
  unfold sleepsFor at h
  split at h
  · rename_i wake htask
    rw [Bool.and_eq_true, Bool.and_eq_true, Bool.not_eq_true', decide_eq_true_eq] at h
    obtain ⟨⟨hfree, hq⟩, hwake⟩ := h
    rintro ⟨a, s', rfl | ⟨drain, rfl⟩, hs⟩
    · have hasleep : ¬ wake ≤ s.now + e := not_le.mpr ((add_lt_add_right hed _).trans_le hwake)
      simp only [step, keepalive, htask, hq, if_neg hasleep] at hs
      cases hs
    · cases step_cases hs with
      | acquire hpc _ _ =>
        have hpc : (s.execs .keepalive).pc = .locking := hpc
        rw [hpc] at hfree
        cases hfree
      | feed hfa _ => cases hfa
  · cases h

theorem prompt_of_check (cfg : Config) (w : Watched) (a : Action)
    (h : idlenessCheck w a = true) : Prompt cfg w.conn a ∧ KeepaliveOk w.conn := by
  unfold idlenessCheck at h
  rw [Bool.and_eq_true] at h
  refine ⟨?_, keepaliveOk_of_answeredOk h.1⟩
  rintro d rfl e _ hed
  exact not_runs_of_sleepsFor h.2 hed

def idleRun : List Action :=
  [.keepalive, .tick 240, .keepalive, .acquire .keepalive .done, .recv (ascii "error id=0 msg=ok"),
    .resume .keepalive {}, .keepalive, .tick 100]

theorem keepalive_at_idleness_answered :
    ∃ w, Sys.run (Watched.step {}) (Watched.start {} []) idleRun = some w ∧
      w.lines = [240, 240] ∧ w.conn.now = 340 ∧ AtIdleness {} w := by
  obtain ⟨w, hw, h⟩ := Sys.exists_reach_of_guard (Watched.step {})
    (fun w a => Prompt {} w.conn a ∧ KeepaliveOk w.conn) idlenessCheck (Watched.start {} [])
    idleRun (prompt_of_check {}) (by decide +kernel)
  have hstate := Sys.eq_of_run_map (f := fun w : Watched =>
    (w.lines, w.conn.now, w.conn.answeredOk, w.conn.closed)) hw
    (b := ([240, 240], 340, true, false)) (by decide +kernel)
  simp only [Prod.mk.injEq] at hstate
  obtain ⟨hlines, hnow, hok, hopen⟩ := hstate
  exact ⟨w, hw, hlines, hnow,
    keepalive_at_idleness (by decide +kernel) h (keepaliveOk_of_answeredOk hok) hopen⟩

end Conn
end Atsq
