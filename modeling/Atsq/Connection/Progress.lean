import Atsq.Connection.Attempts
import Atsq.Lib.Trace

/-!
# How long a call of `exec` may take

`rank` bounds how often the task of a call still runs.  Every run of it lowers the rank and nothing
else raises it; and unless somebody else has the lock, the rank can be lowered without the server
and without the users, by timers and by the task itself.

* `ExecPc.rank`, `rank`   how often the task of a call may still run;
* `Action.runs c`         the task inside `exec` of this caller runs;
* `Own c`                 time passes, a timer of this caller fires, or its task runs on, the
                          transport taking what it is sent.

Main results: `exec_runs_bounded`, and `exists_lower`.
-/

namespace Atsq
open Py

/-! ## the rank of a call -/

def ClosePc.rank : ClosePc → Nat
  | .releasing => 1
  | .quitting _ => 2

/-- `k` attempts are left after this one -/
def ExecPc.rank (k : Nat) : ExecPc → Nat
  | .idle | .finished _ => 0
  | .closing pc => pc.rank
  | .sleeping _ => 4 * k + 2
  | .awaiting _ => 4 * k + 3
  | .sending => 4 * k + 4
  | .locking => 4 * k + 5

def CloseResult.rank : CloseResult → Nat
  | .suspended pc => pc.rank
  | .returned | .cancelled => 0

def attemptsLeft (cfg : Config) (attempt : Nat) : Nat := (cfg.floodRetries - attempt).toNat

def Action.runs (c : Caller) : Action → Bool
  | .acquire d _ | .resume d _ => d = c
  | _ => false

theorem ClosePc.rank_le (pc : ClosePc) : pc.rank ≤ 2 := by
  cases pc with
  | quitting d => exact Nat.le_refl 2
  | releasing => exact Nat.le_succ 1

theorem CloseResult.rank_le (r : CloseResult) : r.rank ≤ 2 := by
  cases r with
  | suspended pc => exact pc.rank_le
  | returned => exact Nat.zero_le 2
  | cancelled => exact Nat.zero_le 2

theorem ExecPc.rank_eq_zero {k : Nat} {pc : ExecPc} : pc.rank k = 0 ↔ pc.free = true := by
  cases pc with
  | idle => exact ⟨fun _ => rfl, fun _ => rfl⟩
  | finished o => exact ⟨fun _ => rfl, fun _ => rfl⟩
  | closing pc => cases pc <;> simp [ExecPc.rank, ClosePc.rank, ExecPc.free]
  | locking => simp [ExecPc.rank, ExecPc.free]
  | sending => simp [ExecPc.rank, ExecPc.free]
  | awaiting d => simp [ExecPc.rank, ExecPc.free]
  | sleeping wake => simp [ExecPc.rank, ExecPc.free]

namespace Conn

def rank (cfg : Config) (s : Conn) (c : Caller) : Nat :=
  (s.execs c).pc.rank (attemptsLeft cfg (s.execs c).attempt)

section
variable {cfg : Config} {s s' : Conn} {c : Caller}

theorem rank_congr {r : Conn} (hpc : (r.execs c).pc = (s.execs c).pc)
    (hattempt : (r.execs c).attempt = (s.execs c).attempt) : r.rank cfg c = s.rank cfg c := by
  unfold rank
  rw [hpc, hattempt]

theorem rank_of_pc {pc : ExecPc} (h : (s.execs c).pc = pc) :
    s.rank cfg c = pc.rank (attemptsLeft cfg (s.execs c).attempt) := by
  unfold rank
  rw [h]

theorem rank_setExec (s : Conn) (c : Caller) (e : Exec) :
    (s.setExec c e).rank cfg c = e.pc.rank (attemptsLeft cfg e.attempt) := by
  unfold rank
  rw [setExec_self]

theorem rank_finish (s : Conn) (c : Caller) (o : Outcome) : (s.finish c o).rank cfg c = 0 :=
  rank_setExec s c _

theorem rank_startAttempt_lt {k : Nat} {wake : ℚ} :
    (s.startAttempt cfg c (k + 1)).rank cfg c
      < (ExecPc.sleeping wake).rank (attemptsLeft cfg k) := by
  unfold startAttempt
  split
  · rename_i hlt
    rw [rank_setExec]
    simp only [ExecPc.rank, attemptsLeft]
    omega
  · rw [rank_finish]
    exact Nat.succ_pos _

theorem rank_complete_le (data : List Bytes) (error : ErrorLine) :
    (s.complete cfg c data error).rank cfg c
      ≤ 4 * attemptsLeft cfg (s.execs c).attempt + 2 := by
  rw [complete_eq, rank_setExec]
  rcases answerPc_form cfg s.now (s.execs c).attempt data error with ⟨wake, h⟩ | ⟨o, h⟩
  · rw [h]
    exact Nat.le_refl _
  · rw [h]
    exact Nat.zero_le _

theorem rank_awaitFuture_le (hf : (s.execs c).future ≠ .pending) :
    (s.awaitFuture cfg c).rank cfg c ≤ 4 * attemptsLeft cfg (s.execs c).attempt + 2 := by
  unfold awaitFuture
  cases h : (s.execs c).future with
  | pending => exact absurd h hf
  | result data error => exact rank_complete_le data error
  | exception =>
    show (s.leave.finish c _).rank cfg c ≤ _
    rw [rank_finish]
    exact Nat.zero_le _
  | cancelled =>
    show (s.leave.finish c _).rank cfg c ≤ _
    rw [rank_finish]
    exact Nat.zero_le _

theorem rank_sendDone_le {drain : Drain} (hd : drain ≠ .suspends) :
    (s.sendDone cfg c drain).rank cfg c ≤ 4 * attemptsLeft cfg (s.execs c).attempt + 3 := by
  cases drain with
  | suspends => exact absurd rfl hd
  | fails =>
    show ((s.sendFailed.leave).finish c _).rank cfg c ≤ _
    rw [rank_finish]
    exact Nat.zero_le _
  | raises =>
    show (s.leave.finish c _).rank cfg c ≤ _
    rw [rank_finish]
    exact Nat.zero_le _
  | done =>
    show (s.touch.awaitFuture cfg c).rank cfg c ≤ _
    by_cases hf : (s.execs c).future = .pending
    · have hawait : s.touch.awaitFuture cfg c = s.touch.setExec c
          { s.execs c with pc := .awaiting (s.now + cfg.commandTimeout) } := by
        have htouch : s.touch.execs c = s.execs c := rfl
        unfold awaitFuture
        rw [htouch, hf]
        rfl
      rw [hawait, rank_setExec]
      exact Nat.le_refl _
    · exact Nat.le_succ_of_le (rank_awaitFuture_le (s := s.touch) hf)

theorem rank_execLine_lt (hpc : (s.execs c).pc = .locking) (drain : Drain) :
    (s.execLine cfg c drain).rank cfg c < s.rank cfg c := by
  have hrank : s.rank cfg c = 4 * attemptsLeft cfg (s.execs c).attempt + 5 := rank_of_pc hpc
  unfold execLine
  split
  · rw [rank_finish, hrank]
    exact Nat.succ_pos _
  · split
    · rw [rank_finish, hrank]
      exact Nat.succ_pos _
    · rename_i t _
      have hattempt : ((s.handOver c t).execs c).attempt = (s.execs c).attempt := by
        rw [exec_handOver]
      by_cases hd : drain = .suspends
      · subst hd
        show (s.handOver c t).rank cfg c < _
        unfold rank
        rw [exec_handOver, hpc]
        exact Nat.lt_succ_self _
      · have hle : (sendDone cfg (s.handOver c t) c drain).rank cfg c
            ≤ 4 * attemptsLeft cfg ((s.handOver c t).execs c).attempt + 3 := rank_sendDone_le hd
        rw [hattempt] at hle
        omega

theorem rank_afterClose (r : Conn) (q : CloseResult) : (r.afterClose c q).rank cfg c = q.rank := by
  cases q with
  | suspended pc => exact rank_setExec r c _
  | returned => exact rank_finish _ c _
  | cancelled => exact rank_finish _ c _

theorem rank_resumeClose_lt {q e : Bool} {io : Io} {pc : ClosePc} {r : Conn × CloseResult}
    (hr : s.resumeClose q e io pc = some r) : r.2.rank < pc.rank := by
  have htransport : ∀ r : Conn, (r.closeTransport io).2.rank < 2 := by
    intro r
    unfold closeTransport
    split
    · exact Nat.succ_pos 1
    · simp only []
      split
      · exact Nat.lt_succ_self 1
      · exact Nat.succ_pos 1
  cases pc with
  | quitting d =>
    simp only [resumeClose] at hr
    split at hr
    · cases hr
      exact Nat.succ_pos 1
    · split at hr
      · cases hr
        exact htransport s
      · split at hr
        · cases hr
          exact htransport s
        · cases hr
          exact htransport s
        · cases hr
          exact htransport s.sendFailed
        · cases hr
  | releasing =>
    simp only [resumeClose] at hr
    split at hr <;> cases hr <;> exact Nat.succ_pos 0

/-- **The task of a call comes nearer to its end each time it runs.** -/
theorem rank_resume_lt {io : Io} (hs : s.resume cfg c io = some s') :
    s'.rank cfg c < s.rank cfg c := by
  cases resume_cases hs with
  | cancelLocking hpc =>
    rw [rank_finish, rank_of_pc hpc]
    exact Nat.succ_pos _
  | cancelSleeping hpc =>
    rw [rank_finish, rank_of_pc hpc]
    exact Nat.succ_pos _
  | retry hpc =>
    rw [rank_of_pc hpc]
    exact rank_startAttempt_lt
  | cancelSent _ hpc =>
    rw [rank_finish]
    rcases hpc with hpc | ⟨d, hpc⟩ <;> rw [rank_of_pc hpc] <;> exact Nat.succ_pos _
  | sendDone hpc hq =>
    have hd : io.drain ≠ .suspends := by
      intro hd
      unfold resume at hs
      simp only [hpc, hq, hd] at hs
      cases hs
    rw [rank_of_pc hpc]
    exact Nat.lt_succ_of_le (rank_sendDone_le hd)
  | timeout hpc _ _ =>
    rw [rank_afterClose, rank_of_pc hpc]
    have hle := (s.close (some c) io).2.rank_le
    simp only [ExecPc.rank]
    omega
  | response hpc _ _ hf =>
    rw [rank_of_pc hpc]
    exact Nat.lt_succ_of_le (rank_awaitFuture_le hf)
  | closing hpc hr =>
    rw [rank_afterClose, rank_of_pc hpc]
    exact rank_resumeClose_lt hr

/-- nobody else touches the call -/
theorem steady_of_not_runs {a : Action} (hb : Base s) (hs : s.step cfg a = some s')
    (ha : ¬ Starts c a) (hruns : a.runs c = false) :
    (s'.execs c).pc = (s.execs c).pc ∧ (s'.execs c).attempt = (s.execs c).attempt := by
  let P : Policy := { idlePolicy with start := fun d => d ≠ c, go := fun d => d ≠ c }
  have hallowed : Allowed P s a :=
    { allowed_any s a with
      start := fun n cmd options blocks params e hn => ha (by rw [e, ← hn]; rfl)
      acquire := fun d drain e hn => by rw [e, hn] at hruns; simp [Action.runs] at hruns
      resume := fun d io e hn => by rw [e, hn] at hruns; simp [Action.runs] at hruns
      startKeepalive := fun e hn => ha (by rw [e, ← hn]; trivial) }
  obtain ⟨hsteady, hpc⟩ := Session.moves_steady (step_moves hb.session hb.tasks hallowed hs)
    (fun h => h rfl) (fun h => h rfl)
  exact ⟨hpc, hsteady.attempt⟩

/-- **Only the task itself lowers the rank of its call**, and it does so each time. -/
theorem step_rank {a : Action} (hb : Base s) (hs : s.step cfg a = some s') (ha : ¬ Starts c a) :
    s'.rank cfg c + (if a.runs c then 1 else 0) ≤ s.rank cfg c := by
  by_cases hruns : a.runs c = true
  · rw [if_pos hruns]
    cases a with
    | acquire d drain =>
      obtain rfl : d = c := by simpa [Action.runs] using hruns
      cases step_cases hs with
      | acquire hpc _ _ => exact rank_execLine_lt hpc drain
      | feed hfa _ => cases hfa
    | resume d io =>
      obtain rfl : d = c := by simpa [Action.runs] using hruns
      exact rank_resume_lt hs
    | _ => cases hruns
  · rw [if_neg hruns]
    obtain ⟨hpc, hattempt⟩ := steady_of_not_runs hb hs ha (Bool.eq_false_iff.mpr hruns)
    exact Nat.le_of_eq (rank_congr hpc hattempt)

theorem rank_le (cfg : Config) (s : Conn) (c : Caller) :
    s.rank cfg c ≤ 4 * cfg.floodRetries.toNat + 5 := by
  have hleft : attemptsLeft cfg (s.execs c).attempt ≤ cfg.floodRetries.toNat := by
    unfold attemptsLeft
    omega
  have hclose := fun pc : ClosePc => pc.rank_le
  unfold rank
  cases (s.execs c).pc with
  | closing pc => exact (hclose pc).trans (by omega)
  | idle => exact Nat.zero_le _
  | finished o => exact Nat.zero_le _
  | _ =>
    simp only [ExecPc.rank]
    omega

end

/-! ## how long a call takes -/

/-- **No livelock.**  Whatever the others and the server do, the task of a call runs at most
`4 · flood_retries + 5` times until the call ends. -/
theorem exec_runs_bounded {cfg : Config} {greeting : List Bytes} {s₁ s : Conn} {c : Caller}
    {as : List Action} (h₁ : Sys.Reach (step cfg) anyStep (started cfg greeting) s₁)
    (h : Sys.Trace (step cfg) (sameCall c) s₁ as s) :
    as.countP (Action.runs c) ≤ 4 * cfg.floodRetries.toNat + 5 ∧
    ((s.execs c).pc.free = false →
      as.countP (Action.runs c) < 4 * cfg.floodRetries.toNat + 5) := by
  have hcount := h.countP_le (fun s => s.rank cfg c) (Action.runs c) (reach_base h₁)
    (fun _ _ _ hb _ hs => step_base hb hs) (fun _ _ _ hb ha hs => step_rank hb hs ha)
  have hmax := rank_le cfg s₁ c
  refine ⟨by omega, fun hbusy => ?_⟩
  have hrank : s.rank cfg c ≠ 0 := by
    intro hzero
    rw [ExecPc.rank_eq_zero.mp hzero] at hbusy
    cases hbusy
  omega

def slowRun : List Action :=
  [.acquire (.task 0) .suspends, .resume (.task 0) {}, .tick 10, .expire (.task 0),
    .resume (.task 0) { drain := .suspends }, .resume (.task 0) { waits := true },
    .resume (.task 0) {}]

theorem exec_runs_bounded_slow :
    ∃ s₁ s, Sys.run (step {}) (started {} []) [.exec 0 (lit "version") [] none []] = some s₁ ∧
      Sys.run (step {}) s₁ slowRun = some s ∧ slowRun.countP (Action.runs (.task 0)) ≤ 13 := by
  obtain ⟨s₁, hs₁, h₁⟩ := Sys.exists_reach (step {}) anyStep (started {} [])
    [.exec 0 (lit "version") [] none []] (fun _ _ => trivial) (by decide +kernel)
  have hrun : ((Sys.run (step {}) (started {} [])
      ([.exec 0 (lit "version") [] none []] ++ slowRun)).isSome = true) := by decide +kernel
  obtain ⟨s, hs⟩ := Option.isSome_iff_exists.mp hrun
  rw [Sys.run_append, hs₁, Option.bind_some] at hs
  have hsame : ∀ a ∈ slowRun, ∀ s, sameCall (.task 0) s a := by
    simp [slowRun, sameCall, Starts]
  exact ⟨s₁, s, hs₁, hs, (exec_runs_bounded h₁ (Sys.trace_of_run hsame hs)).1⟩

/-! ## that it comes on -/

/-- time passes, or the timer or the task of this caller runs and the transport takes the line -/
inductive Own (c : Caller) : Conn → Action → Prop where
  | resume {s : Conn} : Own c s (.resume c {})
  | expire {s : Conn} : Own c s (.expire c)
  | tick {s : Conn} (d : ℚ) : Own c s (.tick d)

/-- the calls of all others are where they were -/
def Aside (c : Caller) (s s' : Conn) : Prop :=
  ∀ d, d ≠ c → (s'.execs d).pc = (s.execs d).pc ∧ (s'.execs d).attempt = (s.execs d).attempt

section
variable {cfg : Config} {s s' : Conn} {c : Caller}

theorem own_aside (hb : Base s) (h : Sys.Reach (step cfg) (Own c) s s') :
    Base s' ∧ Aside c s s' := by
  refine h.inv (I := fun t => Base t ∧ Aside c s t) ⟨hb, fun _ _ => ⟨rfl, rfl⟩⟩ ?_
  rintro t a t' ⟨hbt, haside⟩ hown ht
  refine ⟨step_base hbt ht, fun d hd => ?_⟩
  have hother : ¬ Starts d a ∧ a.runs d = false := by
    cases hown with
    | tick => cases d <;> exact ⟨id, rfl⟩
    | expire => cases d <;> exact ⟨id, rfl⟩
    | resume => cases d <;> exact ⟨id, by simpa [Action.runs] using Ne.symm hd⟩
  obtain ⟨hpc, hattempt⟩ := steady_of_not_runs hbt ht hother.1 hother.2
  exact ⟨hpc.trans (haside d hd).1, hattempt.trans (haside d hd).2⟩

theorem exists_resume (hs : s.resume cfg c {} = some s') :
    ∃ t, Sys.Reach (step cfg) (Own c) s t ∧ t.rank cfg c < s.rank cfg c :=
  ⟨s', Sys.Reach.init.step .resume hs, rank_resume_lt hs⟩

theorem exists_tick (cfg : Config) (s : Conn) (c : Caller) (t : ℚ) : ∃ now, t ≤ now ∧
    Sys.Reach (step cfg) (Own c) s { s with now := now } := by
  refine ⟨s.now + max 0 (t - s.now), ?_, Sys.Reach.init.step (.tick (max 0 (t - s.now))) ?_⟩
  · linarith [le_max_right (0 : ℚ) (t - s.now)]
  · show (if _ then _ else _) = _
    rw [if_pos (le_max_left _ _)]

theorem resume_flagged {d : ℚ} (hpc : (s.execs c).pc = .awaiting d)
    (hready : (s.execs c).cancelReq = true ∨ (s.execs c).expired = true ∨
      (s.execs c).future ≠ .pending) : ∃ s', s.resume cfg c {} = some s' := by
  unfold resume
  simp only [hpc]
  split
  · exact ⟨_, rfl⟩
  · rename_i hq
    split
    · exact ⟨_, rfl⟩
    · rename_i he
      rw [if_neg ((hready.resolve_left hq).resolve_left he)]
      exact ⟨_, rfl⟩

theorem exists_expire {d : ℚ} (hpc : (s.execs c).pc = .awaiting d) :
    ∃ t, Sys.Reach (step cfg) (Own c) s t ∧ t.rank cfg c < s.rank cfg c := by
  obtain ⟨now, hle, htick⟩ := exists_tick cfg s c d
  have hexpire : step cfg { s with now := now } (.expire c) =
      some (setExec { s with now := now } c (s.execs c).expire) := by
    show Conn.expire _ c = _
    unfold Conn.expire
    simp only [hpc]
    exact if_pos hle
  have hself : (setExec { s with now := now } c (s.execs c).expire).execs c = (s.execs c).expire :=
    setExec_self _ c _
  obtain ⟨s₁, hs₁⟩ : ∃ s₁, (setExec { s with now := now } c (s.execs c).expire).resume cfg c {}
      = some s₁ := by
    refine resume_flagged (d := d) ?_ (Or.inr (Or.inl ?_))
    · rw [hself, Exec.expire_pc, hpc]
    · rw [hself]
      rfl
  refine ⟨s₁, (htick.step .expire hexpire).step .resume hs₁, ?_⟩
  refine (rank_resume_lt hs₁).trans_eq (rank_congr ?_ ?_)
  · rw [hself, Exec.expire_pc]
  · rw [hself]
    exact (s.execs c).interrupt_place.2.2

/-- **The task of a call comes on by itself**, once it has the lock. -/
theorem exists_lower (cfg : Config) (hbusy : (s.execs c).pc.free = false)
    (hlock : (s.execs c).pc ≠ .locking) :
    ∃ t, Sys.Reach (step cfg) (Own c) s t ∧ t.rank cfg c < s.rank cfg c := by
  cases hpc : (s.execs c).pc with
  | idle =>
    rw [hpc] at hbusy
    cases hbusy
  | finished o =>
    rw [hpc] at hbusy
    cases hbusy
  | locking => exact absurd hpc hlock
  | sending =>
    obtain ⟨s', hs⟩ : ∃ s', s.resume cfg c {} = some s' := by
      unfold resume
      simp only [hpc]
      split
      · exact ⟨_, rfl⟩
      · exact ⟨_, rfl⟩
    exact exists_resume hs
  | awaiting d => exact exists_expire hpc
  | closing pc =>
    obtain ⟨s', hs⟩ : ∃ s', s.resume cfg c {} = some s' := by
      unfold resume
      simp only [hpc]
      cases pc with
      | quitting d =>
        simp only [resumeClose]
        split
        · exact ⟨_, rfl⟩
        · split <;> exact ⟨_, rfl⟩
      | releasing =>
        simp only [resumeClose]
        split <;> exact ⟨_, rfl⟩
    exact exists_resume hs
  | sleeping wake =>
    by_cases hq : (s.execs c).cancelReq = true
    · have hs : s.resume cfg c {} = some (s.finish c .cancelled) := by
        unfold resume
        simp only [hpc]
        exact if_pos hq
      exact exists_resume hs
    · obtain ⟨now, hle, htick⟩ := exists_tick cfg s c wake
      have hs : resume cfg { s with now := now } c {}
          = some (startAttempt cfg { s with now := now } c ((s.execs c).attempt + 1)) := by
        unfold resume
        simp only [hpc]
        rw [if_neg hq, if_pos hle]
      exact ⟨_, htick.step .resume hs, rank_resume_lt (s := { s with now := now }) hs⟩

/-- the owner of the lock leaves by itself -/
theorem exists_unlocked (cfg : Config) (hb : Base s) {x : Caller} (howner : s.cmdLock = some x) :
    ∃ t, Sys.Reach (step cfg) (Own x) s t ∧ t.cmdLock = none := by
  -- the rank of the owner, as long as it has the lock
  let left (t : Conn) : Nat := if (t.execs x).pc.critical then t.rank cfg x else 0
  obtain ⟨t, ht, hbt, hzero⟩ := Sys.exists_reach_of_rank (C := Own x)
    (step cfg) left (I := Base) (fun t hbt hleft => by
      have hcritical : (t.execs x).pc.critical = true := by
        by_contra hn
        exact hleft (if_neg hn)
      have hbusy : (t.execs x).pc.free = false := by
        by_contra hf
        rw [ExecPc.critical_of_free (Bool.not_eq_false _ ▸ hf)] at hcritical
        cases hcritical
      obtain ⟨t', ht', hlt⟩ := exists_lower cfg hbusy (fun hpc => by
        rw [hpc] at hcritical
        cases hcritical)
      refine ⟨t', ht', (own_aside hbt ht').1, ?_⟩
      have hle : left t' ≤ t'.rank cfg x := by
        show (if _ then _ else _) ≤ _
        split
        · exact Nat.le_refl _
        · exact Nat.zero_le _
      rw [show left t = t.rank cfg x from if_pos hcritical]
      omega) s hb
  have haside := (own_aside hb ht).2
  have hout : (t.execs x).pc.critical = false := by
    by_contra hcritical
    have hrank : t.rank cfg x = 0 := by
      rw [← hzero]
      exact (if_pos (Bool.not_eq_false _ ▸ hcritical)).symm
    have hfree := ExecPc.critical_of_free (ExecPc.rank_eq_zero.mp hrank)
    exact hcritical hfree
  refine ⟨t, ht, ?_⟩
  -- an owner now was one before, and then it was `x`
  cases hnow : t.cmdLock with
  | none => rfl
  | some y =>
    have hy : (t.execs y).pc.critical = true := (hbt.session.callers y).holder.mpr hnow
    have hne : y ≠ x := by
      rintro rfl
      rw [hout] at hy
      cases hy
    rw [(haside y hne).1] at hy
    have hbefore : s.cmdLock = some y := (hb.session.callers y).holder.mp hy
    rw [howner] at hbefore
    exact absurd (Option.some.inj hbefore).symm hne

end

end Conn
end Atsq
