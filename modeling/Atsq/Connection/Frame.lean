import Atsq.Connection.Refine

/-!
# What a step does to the rest of a connection

The event side, the background tasks, the users' `close` calls and the number of quits.

* `Calm s s'`      none of these change;
* `Closing k s s'` the connection is closed on the way, by one shutdown, and `k` quits are sent.

Main results: `step_effect`, what a step can do to all of them, and from it `Effect.step_feed` (a
step is at most one step of the event side), `Effect.recv` (the receive loop), `Effect.quits` (one
quit at most); `reach_base`, the invariants of every run.
-/

namespace Atsq
open Py

/-- the consumer whose `wait_for_event` begins or goes on -/
def Action.consumer : Action → Option Nat
  | .wait n _ => some n
  | .resumeWait n => some n
  | _ => none

namespace Conn

structure Calm (s s' : Conn) : Prop where
  feed : s'.toFeed = s.toFeed
  recvTask : s'.recvTask = s.recvTask
  keepaliveTask : s'.keepaliveTask = s.keepaliveTask
  closers : s'.closers = s.closers
  quits : s'.quits = s.quits

structure Closing (k : Nat) (s s' : Conn) : Prop where
  opened : s.closed = false
  feed : s'.toFeed = s.toFeed.shutdown
  recvTask : s'.recvTask = s.recvTask.cancel
  keepaliveTask : s'.keepaliveTask = s.keepaliveTask
  closers : s'.closers = s.closers
  quits : s'.quits = s.quits + k

theorem Calm.refl (s : Conn) : Calm s s := ⟨rfl, rfl, rfl, rfl, rfl⟩

theorem Calm.trans {s₁ s₂ s₃ : Conn} (h₁ : Calm s₁ s₂) (h₂ : Calm s₂ s₃) : Calm s₁ s₃ :=
  ⟨h₂.feed.trans h₁.feed, h₂.recvTask.trans h₁.recvTask, h₂.keepaliveTask.trans h₁.keepaliveTask,
    h₂.closers.trans h₁.closers, h₂.quits.trans h₁.quits⟩

theorem Closing.trans_calm {k : Nat} {s₁ s₂ s₃ : Conn} (h₁ : Closing k s₁ s₂)
    (h₂ : Calm s₂ s₃) : Closing k s₁ s₃ :=
  ⟨h₁.opened, h₂.feed.trans h₁.feed, h₂.recvTask.trans h₁.recvTask,
    h₂.keepaliveTask.trans h₁.keepaliveTask, h₂.closers.trans h₁.closers,
    h₂.quits.trans h₁.quits⟩

/-! ## the methods -/

variable (cfg : Config) (s : Conn) (c : Caller)

theorem calm_setExec (e : Exec) : Calm s (s.setExec c e) := ⟨rfl, rfl, rfl, rfl, rfl⟩
theorem calm_finish (o : Outcome) : Calm s (s.finish c o) := calm_setExec s c _
theorem calm_touch : Calm s s.touch := ⟨rfl, rfl, rfl, rfl, rfl⟩
theorem calm_leave : Calm s s.leave := ⟨rfl, rfl, rfl, rfl, rfl⟩
theorem calm_sendFailed : Calm s s.sendFailed := ⟨rfl, rfl, rfl, rfl, rfl⟩
theorem calm_cancelExec : Calm s (s.cancelExec c) := calm_setExec s c _
theorem calm_handOver (t : SshTransport) : Calm s (s.handOver c t) := ⟨rfl, rfl, rfl, rfl, rfl⟩

theorem calm_leave_finish (o : Outcome) : Calm s (s.leave.finish c o) :=
  s.calm_leave.trans (calm_finish _ c o)

theorem calm_cancelKeepalive : Calm s s.cancelKeepalive := by
  unfold cancelKeepalive
  split
  · exact .refl s
  · exact .refl s
  · exact calm_setExec s _ _

theorem calm_settle (f : Future) : Calm s (s.settle f) := by
  unfold settle
  split
  · split
    · exact calm_setExec s _ _
    · exact .refl s
  · exact .refl s

theorem calm_startAttempt (k : Nat) : Calm s (s.startAttempt cfg c k) := by
  unfold startAttempt
  split
  · exact calm_setExec s c _
  · exact calm_finish s c _

theorem calm_startExec (line : Except RenderError Bytes) : Calm s (s.startExec cfg c line) := by
  unfold startExec
  split
  · exact calm_setExec s c _
  · exact (calm_setExec s c _).trans (calm_startAttempt cfg _ c 0)

theorem calm_complete (data : List Bytes) (error : ErrorLine) :
    Calm s (s.complete cfg c data error) := by
  unfold complete
  have hleave : Calm s s.leave.touch := s.calm_leave.trans (calm_touch _)
  simp only []
  split
  · exact hleave.trans (calm_finish _ c _)
  · split
    · exact hleave.trans (calm_setExec _ c _)
    · exact hleave.trans (calm_finish _ c _)

theorem calm_awaitFuture : Calm s (s.awaitFuture cfg c) := by
  unfold awaitFuture
  split
  · exact calm_setExec s c _
  · exact calm_complete cfg s c _ _
  · exact calm_leave_finish s c _
  · exact calm_leave_finish s c _

theorem calm_sendDone (drain : Drain) : Calm s (s.sendDone cfg c drain) := by
  cases drain with
  | suspends => exact .refl s
  | done => exact s.calm_touch.trans (calm_awaitFuture cfg s.touch c)
  | fails => exact s.calm_sendFailed.trans (calm_leave_finish _ c _)
  | raises => exact calm_leave_finish s c _

theorem calm_execLine (drain : Drain) : Calm s (s.execLine cfg c drain) := by
  unfold execLine
  split
  · exact calm_finish s c _
  · split
    · exact calm_finish s c _
    · exact (calm_handOver s c _).trans (calm_sendDone cfg _ c drain)

theorem calm_afterClose (r : CloseResult) : Calm s (s.afterClose c r) := by
  cases r with
  | suspended pc => exact calm_setExec s c _
  | returned => exact ⟨rfl, rfl, rfl, rfl, rfl⟩
  | cancelled => exact calm_leave_finish s c _

theorem calm_closeTransport (io : Io) : Calm s (s.closeTransport io).1 := by
  unfold closeTransport
  split
  · exact .refl s
  · exact ⟨rfl, rfl, rfl, rfl, rfl⟩

theorem calm_resumeClose {s : Conn} {q e : Bool} {io : Io} {pc : ClosePc} {r : Conn × CloseResult}
    (h : s.resumeClose q e io pc = some r) : Calm s r.1 := by
  unfold resumeClose at h
  split at h
  · split at h
    · cases h; exact .refl s
    · split at h
      · cases h; exact calm_closeTransport s io
      · split at h
        · cases h; exact calm_closeTransport s io
        · cases h; exact calm_closeTransport s io
        · cases h; exact s.calm_sendFailed.trans (calm_closeTransport _ io)
        · cases h
  · split at h <;> cases h <;> exact .refl s

/-! ## closing -/

theorem shutdown_of_open (hc : s.closed = false) :
    Calm { s.failPending with toFeed := s.toFeed.shutdown } s.shutdown := by
  unfold shutdown
  rw [if_neg (by rw [hc]; decide)]
  exact calm_cancelKeepalive _

theorem closing_beginClose (current : Option Caller) (hc : s.closed = false) :
    Closing 0 s (s.beginClose current) := by
  have hfail := calm_settle s .exception
  have hshut := s.shutdown_of_open hc
  have hrest : Calm s.shutdown
      (if current = some .keepalive then s.shutdown else s.shutdown.cancelKeepalive) := by
    split
    · exact .refl _
    · exact calm_cancelKeepalive _
  have hall := hshut.trans hrest
  exact ⟨hc, hall.feed, congrArg RecvTask.cancel (hall.recvTask.trans hfail.recvTask),
    hall.keepaliveTask.trans hfail.keepaliveTask, hall.closers.trans hfail.closers,
    hall.quits.trans hfail.quits⟩

theorem closing_quit {s₀ : Conn} (h : Closing 0 s₀ s) (io : Io) :
    ∃ k ≤ 1, Closing k s₀ (s.quit io).1 := by
  unfold quit
  split
  · exact ⟨0, Nat.zero_le _, h.trans_calm (calm_closeTransport s io)⟩
  · rename_i t _
    have hquit : Closing 1 s₀ { s with transport := t, quits := s.quits + 1 } :=
      ⟨h.opened, h.feed, h.recvTask, h.keepaliveTask, h.closers, congrArg (· + 1) h.quits⟩
    refine ⟨1, Nat.le_refl _, ?_⟩
    simp only []
    split
    · exact hquit
    · exact hquit.trans_calm (calm_closeTransport _ io)
    · exact hquit.trans_calm (calm_closeTransport _ io)
    · exact hquit.trans_calm ((calm_sendFailed _).trans (calm_closeTransport _ io))

theorem closing_close (current : Option Caller) (io : Io) (hc : s.closed = false) :
    ∃ k ≤ 1, Closing k s (s.close current io).1 := by
  have hbegin := s.closing_beginClose current hc
  rw [close_of_open s current io hc]
  split
  · exact ⟨0, Nat.zero_le _, hbegin.trans_calm (calm_closeTransport _ io)⟩
  · exact closing_quit _ hbegin io

theorem calm_or_closing_close (current : Option Caller) (io : Io) :
    Calm s (s.close current io).1 ∨ ∃ k ≤ 1, Closing k s (s.close current io).1 := by
  cases hc : s.closed with
  | true =>
    rw [close_of_closed s current io hc]
    exact Or.inl (.refl s)
  | false => exact Or.inr (s.closing_close current io hc)

theorem Calm.closed {s s' : Conn} (h : Calm s s') : s'.closed = s.closed :=
  congrArg Feed.closed h.feed
theorem Closing.closed {k : Nat} {s s' : Conn} (h : Closing k s s') : s'.closed = true :=
  (congrArg Feed.closed h.feed).trans (feed_shutdown_closed _)

theorem frame_resume {cfg : Config} {s s' : Conn} {c : Caller} {io : Io}
    (h : Resumed cfg s c io s') : Calm s s' ∨ ∃ k ≤ 1, Closing k s s' := by
  cases h with
  | cancelLocking _ => exact Or.inl (calm_finish s c _)
  | cancelSleeping _ => exact Or.inl (calm_finish s c _)
  | retry _ => exact Or.inl (calm_startAttempt cfg s c _)
  | cancelSent _ _ => exact Or.inl (calm_leave_finish s c _)
  | sendDone _ _ => exact Or.inl (calm_sendDone cfg s c _)
  | timeout _ _ _ =>
    rcases s.calm_or_closing_close (some c) io with hcalm | ⟨k, hk, hclosing⟩
    · exact Or.inl (hcalm.trans (calm_afterClose _ c _))
    · exact Or.inr ⟨k, hk, hclosing.trans_calm (calm_afterClose _ c _)⟩
  | response _ _ _ _ => exact Or.inl (calm_awaitFuture cfg s c)
  | @closing pc r _ hr => exact Or.inl ((calm_resumeClose hr).trans (calm_afterClose r.1 c r.2))

theorem closerAfter_frame (s : Conn) (n : Nat) (r : CloseResult) :
    (s.closerAfter n r).toFeed = s.toFeed ∧ (s.closerAfter n r).recvTask = s.recvTask ∧
      (s.closerAfter n r).quits = s.quits ∧
      (s.closerAfter n r).keepaliveTask = s.keepaliveTask := by
  cases r <;> exact ⟨rfl, rfl, rfl, rfl⟩

/-! ## every step -/

/-- only the keepalive task itself changes its state -/
def SameKeepalive (s : Conn) (a : Action) (s' : Conn) : Prop :=
  a = .keepalive ∨ s'.keepaliveTask = s.keepaliveTask

/-- what a step does to the event side, the background tasks and the quits -/
inductive Effect (s : Conn) (a : Action) (s' : Conn) : Prop where
  | calm : a.consumer = none → SameKeepalive s a s' → s'.toFeed = s.toFeed →
      s'.recvTask = s.recvTask → s'.quits = s.quits → Effect s a s'
  | feed (fa : Feed.Act) : fa.consumer = a.consumer → SameKeepalive s a s' → fa ≠ .shutdown →
      s.toFeed.step fa = some s'.toFeed → s'.recvTask = s.recvTask → s'.quits = s.quits →
      Effect s a s'
  | closing (k : Nat) : k ≤ 1 → a.consumer = none → SameKeepalive s a s' → s.closed = false →
      s'.toFeed = s.toFeed.shutdown → s'.recvTask = s.recvTask.cancel → s'.quits = s.quits + k →
      Effect s a s'
  | ended : a.consumer = none → SameKeepalive s a s' → s.closed = false →
      s'.toFeed = s.toFeed.shutdown → s'.recvTask = .ended → s'.quits = s.quits → Effect s a s'
  | stopped : a.consumer = none → SameKeepalive s a s' → s'.toFeed = s.toFeed →
      s.recvTask = .cancelling → s'.recvTask = .ended → s'.quits = s.quits → Effect s a s'

theorem Effect.sameKeepalive {s s' : Conn} {a : Action} (h : Effect s a s') :
    SameKeepalive s a s' := by
  cases h <;> assumption

theorem Calm.effect {s s' : Conn} {a : Action} (h : Calm s s') (ha : a.consumer = none) :
    Effect s a s' := .calm ha (Or.inr h.keepaliveTask) h.feed h.recvTask h.quits

theorem effect_of_or {s s' : Conn} {a : Action} (ha : a.consumer = none)
    (h : Calm s s' ∨ ∃ k ≤ 1, Closing k s s') : Effect s a s' := by
  rcases h with h | ⟨k, hk, h⟩
  · exact h.effect ha
  · exact .closing k hk ha (Or.inr h.keepaliveTask) h.opened h.feed h.recvTask h.quits

theorem frame_keepalive {cfg : Config} {s s' : Conn} (h : KeptAlive cfg s s') :
    s'.toFeed = s.toFeed ∧ s'.recvTask = s.recvTask ∧ s'.quits = s.quits := by
  obtain ⟨_, rfl | hround⟩ := h.round
  · exact ⟨rfl, rfl, rfl⟩
  · cases hround with
    | ended _ => exact ⟨rfl, rfl, rfl⟩
    | sleeps _ _ => exact ⟨rfl, rfl, rfl⟩
    | issues _ _ =>
      have h := calm_startExec cfg { s with keepaliveTask := .executing } .keepalive
        (renderCommand (lit "whoami") [] none [])
      exact ⟨h.feed, h.recvTask, h.quits⟩

theorem recvLine_data {s : Conn} {line : Bytes} (hd : isDataLine line = true) : s.recvLine line =
    { s with received := s.received ++ [line], dataBuffer := s.dataBuffer ++ [line] } := by
  have herr := isErrorLine_of_isDataLine hd
  unfold isDataLine at hd
  rw [Bool.and_eq_true, Bool.and_eq_true, Bool.not_eq_true', Bool.not_eq_true'] at hd
  unfold recvLine
  simp only []
  rw [if_neg (List.isEmpty_eq_false_iff.mp hd.1.1), hd.1.2, herr, if_neg (by decide),
    if_neg (by decide)]

theorem recvLine_error {s : Conn} {line : Bytes} {error : ErrorLine}
    (herr : isErrorLine line = true) (hp : parseErrorLine line = .ok error) : s.recvLine line =
    settle { s with received := s.received ++ [line], dataBuffer := [] }
      (.result s.dataBuffer error) := by
  unfold recvLine
  simp only [if_neg (ne_nil_of_isErrorLine herr), isEventLine_of_isErrorLine line herr, herr, hp,
    if_true]
  rfl

theorem effect_recvCrash {s t : Conn} {a : Action} (ha : a.consumer = none) (ht : Calm s t)
    (hc : s.closed = false) : Effect s a t.recvCrash := by
  have h := shutdown_of_open t (ht.closed.trans hc)
  have hf := ht.trans (calm_settle t .exception)
  exact .ended ha (Or.inr (h.keepaliveTask.trans hf.keepaliveTask)) hc
    (h.feed.trans (congrArg Feed.shutdown ht.feed)) rfl (h.quits.trans hf.quits)

theorem effect_recvLine {s : Conn} (hc : s.closed = false) (line : Bytes) :
    Effect s (.recv line) (s.recvLine line) := by
  unfold recvLine
  simp only []
  split
  · exact .calm rfl (Or.inr rfl) rfl rfl rfl
  · split
    · refine .feed (.publish (Event.fromLine line)) rfl (Or.inr rfl) Feed.Act.noConfusion ?_ rfl rfl
      rw [Feed.step, if_neg (by rw [hc]; decide)]
    · split
      · split
        · have h := calm_settle { s with received := s.received ++ [line], dataBuffer := [] }
            (.result s.dataBuffer ‹_›)
          exact .calm rfl (Or.inr h.keepaliveTask) h.feed h.recvTask h.quits
        · exact effect_recvCrash (a := .recv line)
            (t := { s with received := s.received ++ [line], dataBuffer := [] }) rfl
            ⟨rfl, rfl, rfl, rfl, rfl⟩ hc
      · exact .calm rfl (Or.inr rfl) rfl rfl rfl

theorem feedAct_consumer {s : Conn} {a : Action} {fa : Feed.Act} (h : s.feedAct a = some fa) :
    fa.consumer = a.consumer := by
  cases a <;> cases h <;> rfl

theorem step_effect {cfg : Config} {s s' : Conn} {a : Action} (ht : Tasks s)
    (hs : s.step cfg a = some s') : Effect s a s' := by
  cases step_cases hs with
  | exec _ => exact (calm_startExec cfg s _ _).effect rfl
  | @acquire c drain _ _ _ => exact (calm_execLine cfg s c drain).effect rfl
  | resume hr => exact effect_of_or rfl (frame_resume hr)
  | expire _ => exact (calm_setExec s _ _).effect rfl
  | expireQuit _ => exact (calm_setExec s _ _).effect rfl
  | cancel => exact (calm_cancelExec s _).effect rfl
  | @feed _ fa _ hfa hf =>
    exact .feed fa (feedAct_consumer hfa) (Or.inr rfl) (feedAct_ne_shutdown hfa) hf rfl rfl
  | @close n io _ =>
    obtain ⟨h1, h2, h3, h4⟩ := closerAfter_frame ((s.setCloser n {}).close none io).1 n
      ((s.setCloser n {}).close none io).2
    rcases (s.setCloser n {}).calm_or_closing_close none io with h | ⟨k, hk, h⟩
    · exact .calm rfl (Or.inr (h4.trans h.keepaliveTask)) (h1.trans h.feed)
        (h2.trans h.recvTask) (h3.trans h.quits)
    · exact .closing k hk rfl (Or.inr (h4.trans h.keepaliveTask)) h.opened (h1.trans h.feed)
        (h2.trans h.recvTask) (h3.trans h.quits)
  | @resumeClose n io pc r _ hr =>
    have h := calm_resumeClose hr
    obtain ⟨h1, h2, h3, h4⟩ := closerAfter_frame r.1 n r.2
    exact .calm rfl (Or.inr (h4.trans h.keepaliveTask)) (h1.trans h.feed) (h2.trans h.recvTask)
      (h3.trans h.quits)
  | expireClose => exact .calm rfl (Or.inr rfl) rfl rfl rfl
  | cancelClose => exact .calm rfl (Or.inr rfl) rfl rfl rfl
  | keepalive hk =>
    obtain ⟨h1, h2, h3⟩ := frame_keepalive hk
    exact .calm rfl (Or.inl rfl) h1 h2 h3
  | @recv line hrun => exact effect_recvLine (ht.recv.mp hrun) line
  | eof hrun => exact effect_recvCrash (a := .eof) rfl s.calm_sendFailed (ht.recv.mp hrun)
  | readError hrun => exact effect_recvCrash (a := .readError) rfl (.refl s) (ht.recv.mp hrun)
  | recvStop hstop => exact .stopped rfl (Or.inr rfl) rfl hstop rfl rfl
  | tick _ => exact .calm rfl (Or.inr rfl) rfl rfl rfl

/-- **A step is at most one step of the event side**, and it is one for the same consumer. -/
theorem Effect.step_feed {s s' : Conn} {a : Action} (h : Effect s a s') :
    (s'.toFeed = s.toFeed ∧ a.consumer = none) ∨
    ∃ fa : Feed.Act, s.toFeed.step fa = some s'.toFeed ∧ fa.consumer = a.consumer := by
  have hshut : s.closed = false → s.toFeed.step .shutdown = some s.toFeed.shutdown := fun hc => by
    rw [Feed.step, if_neg (by rw [hc]; decide)]
  cases h with
  | calm ha _ hf => exact Or.inl ⟨hf, ha⟩
  | feed fa ha _ _ hf => exact Or.inr ⟨fa, hf, ha⟩
  | closing k _ ha _ hc hf => exact Or.inr ⟨.shutdown, by rw [hf]; exact hshut hc, ha.symm⟩
  | ended ha _ hc hf => exact Or.inr ⟨.shutdown, by rw [hf]; exact hshut hc, ha.symm⟩
  | stopped ha _ hf => exact Or.inl ⟨hf, ha⟩

theorem Effect.recv {s s' : Conn} {a : Action} (h : Effect s a s')
    (ht : s.recvTask = .running ↔ s.closed = false) :
    s'.recvTask = .running ↔ s'.closed = false := by
  cases h with
  | calm _ _ hf hr _ =>
    have hc : s'.closed = s.closed := congrArg Feed.closed hf
    rw [hr, hc]
    exact ht
  | feed fa _ _ hfa hf hr _ =>
    have hc : s'.closed = s.closed := Feed.step_closed_eq hf hfa
    rw [hr, hc]
    exact ht
  | closing k _ _ _ hc hf hr _ =>
    have hc' : s'.closed = true := (congrArg Feed.closed hf).trans (feed_shutdown_closed _)
    have hr' : s'.recvTask = .cancelling := by
      rw [hr, ht.mpr hc]
      rfl
    rw [hr', hc']
    exact ⟨nofun, nofun⟩
  | ended _ _ hc hf hr _ =>
    have hc' : s'.closed = true := (congrArg Feed.closed hf).trans (feed_shutdown_closed _)
    rw [hr, hc']
    exact ⟨nofun, nofun⟩
  | stopped _ _ hf hstop hr _ =>
    have hc : s'.closed = s.closed := congrArg Feed.closed hf
    rw [hr, hc]
    refine ⟨nofun, fun e => ?_⟩
    rw [ht.mpr e] at hstop
    cases hstop

theorem Effect.quits {s s' : Conn} {a : Action} (h : Effect s a s')
    (hq : s.closed = false → s.quits = 0) (hle : s.quits ≤ 1) :
    (s'.closed = false → s'.quits = 0) ∧ s'.quits ≤ 1 := by
  cases h with
  | calm _ _ hf _ hk =>
    have hc : s'.closed = s.closed := congrArg Feed.closed hf
    rw [hk, hc]
    exact ⟨hq, hle⟩
  | feed fa _ _ hfa hf _ hk =>
    have hc : s'.closed = s.closed := Feed.step_closed_eq hf hfa
    rw [hk, hc]
    exact ⟨hq, hle⟩
  | closing k hk1 _ _ hc hf _ hk =>
    have hc' : s'.closed = true := (congrArg Feed.closed hf).trans (feed_shutdown_closed _)
    rw [hk, hq hc, hc', Nat.zero_add]
    exact ⟨nofun, hk1⟩
  | ended _ _ hc hf _ hk =>
    have hc' : s'.closed = true := (congrArg Feed.closed hf).trans (feed_shutdown_closed _)
    rw [hk, hc']
    exact ⟨nofun, hle⟩
  | stopped _ _ hf _ _ hk =>
    have hc : s'.closed = s.closed := congrArg Feed.closed hf
    rw [hk, hc]
    exact ⟨hq, hle⟩

theorem closeCall_closed (s : Conn) (n : Nat) (io : Io) : (s.closeCall n io).closed = true :=
  (congrArg Feed.closed (closerAfter_frame _ n _).1).trans (close_closed (s.setCloser n {}) none io)

theorem recvLine_closed {s : Conn} (hc : s.closed = true) (line : Bytes) :
    (s.recvLine line).closed = true := by
  unfold recvLine
  simp only []
  split
  · exact hc
  · split
    · exact hc
    · split
      · split
        · exact (calm_settle _ _).closed.trans hc
        · exact shutdown_closed { s with received := s.received ++ [line], dataBuffer := [] }
      · exact hc

theorem step_closed {cfg : Config} {s s' : Conn} {a : Action} (hs : s.step cfg a = some s')
    (hc : s.closed = true) : s'.closed = true := by
  cases step_cases hs with
  | exec _ => exact (calm_startExec cfg s _ _).closed.trans hc
  | @acquire c drain _ _ _ => exact (calm_execLine cfg s c drain).closed.trans hc
  | resume hr =>
    rcases frame_resume hr with h | ⟨k, _, h⟩
    · exact h.closed.trans hc
    · exact h.closed
  | expire _ => exact hc
  | expireQuit _ => exact hc
  | cancel => exact hc
  | feed hfa hf => exact (Feed.step_closed_eq hf (feedAct_ne_shutdown hfa)).trans hc
  | @close n io _ => exact closeCall_closed s n io
  | @resumeClose n io pc r _ hr =>
    have h := (calm_resumeClose hr).closed.trans hc
    exact (congrArg Feed.closed (closerAfter_frame r.1 n r.2).1).trans h
  | expireClose => exact hc
  | cancelClose => exact hc
  | keepalive hk => exact (congrArg Feed.closed (frame_keepalive hk).1).trans hc
  | @recv line _ => exact recvLine_closed hc line
  | eof _ => exact shutdown_closed s.sendFailed
  | readError _ => exact shutdown_closed s
  | recvStop _ => exact hc
  | tick _ => exact hc

theorem step_open {cfg : Config} {s s' : Conn} {a : Action} (hs : s.step cfg a = some s')
    (hc : s'.closed = false) : s.closed = false := by
  by_contra h
  rw [step_closed hs (Bool.not_eq_false _ ▸ h)] at hc
  cases hc

/-! ## the invariants of every run -/

def anyStep : Conn → Action → Prop := fun _ _ => True

def anyPolicy : Policy where
  start _ := True
  go _ := True
  send _ _ := True
  recv _ _ := True
  leave _ _ := True
  cancel _ _ := True

theorem allowed_any (s : Conn) (a : Action) : Allowed anyPolicy s a :=
  ⟨fun _ _ _ _ _ _ => trivial, fun _ _ _ => trivial, fun _ _ _ _ _ => trivial,
    fun _ _ _ => trivial, fun _ => trivial,
    fun _ _ => trivial, fun _ _ _ => trivial, fun _ _ => trivial, fun _ _ => trivial⟩

theorem free_moves {P : Policy} {v v' : Session} (hm : Session.Moves P v v') {t : Caller}
    (hs : ¬ P.start t) (hfree : (v.execs t).pc.free = true) : (v'.execs t).pc.free = true := by
  induction hm with
  | refl => exact hfree
  | tail _ hm ih => exact hm.free hs ih

theorem inv_moves {P : Policy} {v v' : Session} (hm : Session.Moves P v v') (h : v.Inv) :
    v'.Inv := by
  induction hm with
  | refl => exact h
  | tail _ hm ih => exact hm.inv ih

/-- what every move keeps, every step keeps -/
theorem inv_moves_of {P : Policy} {I : Session → Prop}
    (hI : ∀ v v', v.Inv → I v → Session.Move P v v' → I v') {v v' : Session}
    (hm : Session.Moves P v v') (hi : v.Inv) (h : I v) : I v' := by
  have hboth : v'.Inv ∧ I v' := by
    induction hm with
    | refl => exact ⟨hi, h⟩
    | tail _ hm ih => exact ⟨hm.inv ih.1, hI _ _ ih.1 ih.2 hm⟩
  exact hboth.2

theorem keepaliveTask_startExec (cfg : Config) (s : Conn) (line : Except RenderError Bytes) :
    (startExec cfg { s with keepaliveTask := .executing } .keepalive line).keepaliveTask
      = .executing :=
  (calm_startExec cfg { s with keepaliveTask := .executing } .keepalive line).keepaliveTask

theorem keepaliveTask_keepalive {cfg : Config} {s s' : Conn}
    (hk : (s.execs .keepalive).pc.free = false → s.keepaliveTask = .executing)
    (h : s.keepalive cfg = some s') :
    (s'.execs .keepalive).pc.free = false → s'.keepaliveTask = .executing := by
  obtain ⟨hidle, rfl | hround⟩ := (keepalive_cases h).round
  · exact fun hn => absurd (hidle.free hk) (by rw [hn]; decide)
  · cases hround with
    | ended _ => exact fun hn => absurd (hidle.free hk) (by rw [hn]; decide)
    | sleeps _ _ => exact fun hn => absurd (hidle.free hk) (by rw [hn]; decide)
    | issues _ _ => exact fun _ => keepaliveTask_startExec cfg s _

structure Base (s : Conn) : Prop where
  session : s.session.Inv
  tasks : Tasks s
  ledger : Ledger s.toFeed
  waiters : Waiters s.toFeed
  quitsOpen : s.closed = false → s.quits = 0
  quits : s.quits ≤ 1

theorem base_started (cfg : Config) (greeting : List Bytes) : Base (started cfg greeting) where
  session :=
    { lock := rfl
      buffer := rfl
      marks := fun _ h => absurd h List.not_mem_nil
      callers := fun _ => .of_plain (nofun) rfl }
  tasks := ⟨⟨fun _ => rfl, fun _ => rfl⟩, nofun⟩
  ledger := .init cfg.eventQueueSize
  waiters := .init cfg.eventQueueSize
  quitsOpen _ := rfl
  quits := Nat.zero_le _

theorem step_base {cfg : Config} {s s' : Conn} {a : Action} (h : Base s)
    (hs : s.step cfg a = some s') : Base s' := by
  have heff := step_effect h.tasks hs
  have hmoves := step_moves h.session h.tasks (allowed_any s a) hs
  have hquits := heff.quits h.quitsOpen h.quits
  have hfeed : Ledger s'.toFeed ∧ Waiters s'.toFeed := by
    rcases heff.step_feed with ⟨hf, _⟩ | ⟨fa, hf, _⟩
    · rw [hf]
      exact ⟨h.ledger, h.waiters⟩
    · exact ⟨Feed.step_ledger h.ledger hf, Feed.step_waiters h.waiters hf⟩
  refine ⟨inv_moves hmoves h.session, ⟨heff.recv h.tasks.recv, ?_⟩, hfeed.1, hfeed.2,
    hquits.1, hquits.2⟩
  by_cases hk : a = .keepalive
  · subst hk
    exact keepaliveTask_keepalive h.tasks.keepalive hs
  · -- no other action calls `exec` for the keepalive task
    let P : Policy := { anyPolicy with start := fun c => c ≠ .keepalive }
    have hallowed : Allowed P s a :=
      { allowed_any s a with
        start := fun _ _ _ _ _ _ => Caller.noConfusion
        startKeepalive := fun e => absurd e hk }
    have hm := step_moves h.session h.tasks hallowed hs
    intro hn
    rw [heff.sameKeepalive.resolve_left hk]
    refine h.tasks.keepalive ?_
    by_contra hf
    have hfree := free_moves hm (t := .keepalive) (fun hne => hne rfl)
      (Bool.not_eq_false _ ▸ hf)
    rw [show (s'.execs .keepalive).pc.free = true from hfree] at hn
    cases hn

/-- **The invariants of every run.** -/
theorem reach_base {cfg : Config} {C : Conn → Action → Prop} {greeting : List Bytes} {s : Conn}
    (h : Sys.Reach (step cfg) C (started cfg greeting) s) : Base s :=
  h.inv (base_started cfg greeting) fun _ _ _ hb _ hs => step_base hb hs

end Conn
end Atsq
