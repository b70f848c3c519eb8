import Atsq.Connection.Progress

/-!
# No call of `exec` is stuck

`asyncio.Lock` serves those that wait for it in their order.  As long as a call has not ended, it
can come to its end without the server and without the users, also if nobody overtakes: whoever has
the lock leaves it, and those that are ahead in the queue have their attempts.

* `Queued s w`   `w` are the callers that wait for the lock, each once;
* `Fifo`         a connection with this queue; who comes to wait goes to its end, and only the
                 first one obtains the lock;
* `Unaided`      time passes, a timer fires, or a task inside `exec` runs, the transport taking
                 what it is sent.

Main result: `exec_can_end`.
-/

namespace Atsq
open Py

def ExecPc.isLocking : ExecPc → Bool
  | .locking => true
  | _ => false

theorem ExecPc.isLocking_iff {pc : ExecPc} : pc.isLocking = true ↔ pc = .locking := by
  cases pc <;> simp [ExecPc.isLocking]

def Action.actor : Action → Option Caller
  | .exec n .. => some (.task n)
  | .acquire c _ | .resume c _ => some c
  | .keepalive => some .keepalive
  | _ => none

namespace Conn

/-- the callers that wait for the lock -/
structure Queued (s : Conn) (w : List Caller) : Prop where
  nodup : w.Nodup
  waits : ∀ c, c ∈ w ↔ (s.execs c).pc = .locking

/-- the queue after an action: who still waits, and who has come to wait -/
def requeue (w : List Caller) (s' : Conn) (a : Action) : List Caller :=
  (w.filter fun c => (s'.execs c).pc.isLocking) ++
    a.actor.toList.filter fun c => (s'.execs c).pc.isLocking && !w.contains c

end Conn

structure Fifo where
  conn : Conn
  waiters : List Caller

namespace Fifo

def inTurn (s : Fifo) : Action → Bool
  | .acquire c _ => s.waiters.head? == some c
  | _ => true

def step (cfg : Config) (s : Fifo) (a : Action) : Option Fifo :=
  if s.inTurn a then
    (s.conn.step cfg a).map fun conn => { conn, waiters := Conn.requeue s.waiters conn a }
  else none

/-- neither the server nor a user does anything -/
inductive Unaided : Fifo → Action → Prop where
  | own {s : Fifo} {c : Caller} {a : Action} : Conn.Own c s.conn a → Unaided s a
  | acquire {s : Fifo} {c : Caller} : Unaided s (.acquire c .done)

end Fifo

/-! ## the queue -/

namespace Conn
section
variable {cfg : Config} {s s' : Conn} {a : Action} {w : List Caller}

theorem pc_of_ne_actor (hb : Base s) (hs : s.step cfg a = some s') {c : Caller}
    (hc : a.actor ≠ some c) :
    (s'.execs c).pc = (s.execs c).pc ∧ (s'.execs c).attempt = (s.execs c).attempt := by
  refine steady_of_not_runs hb hs (fun hstarts => hc ?_) (Bool.eq_false_iff.mpr fun hruns => hc ?_)
  · cases c with
    | task n =>
      cases a with
      | exec m cmd options blocks params => exact congrArg (fun n => some (Caller.task n)) hstarts
      | _ => cases hstarts
    | keepalive =>
      cases a with
      | keepalive => rfl
      | _ => cases hstarts
  · cases a with
    | acquire d drain => exact congrArg some (by simpa [Action.runs] using hruns)
    | resume d io => exact congrArg some (by simpa [Action.runs] using hruns)
    | _ => cases hruns

theorem queued_step (hb : Base s) (hs : s.step cfg a = some s') (h : Queued s w) :
    Queued s' (requeue w s' a) := by
  refine ⟨List.nodup_append.mpr ⟨h.nodup.filter _, ?_, ?_⟩, fun c => ?_⟩
  · cases a.actor with
    | none => exact List.nodup_nil
    | some d => exact (List.nodup_singleton d).filter _
  · intro x hx y hy hxy
    obtain ⟨_, hy⟩ := List.mem_filter.mp hy
    rw [Bool.and_eq_true, Bool.not_eq_true', ← Bool.not_eq_true, List.contains_iff_mem] at hy
    exact hy.2 (hxy ▸ (List.mem_filter.mp hx).1)
  · unfold Conn.requeue
    rw [List.mem_append, List.mem_filter, List.mem_filter, Bool.and_eq_true,
      ExecPc.isLocking_iff, Option.mem_toList]
    constructor
    · rintro (⟨_, hpc⟩ | ⟨_, hpc, _⟩) <;> exact hpc
    · intro hpc
      by_cases hc : c ∈ w
      · exact Or.inl ⟨hc, hpc⟩
      · refine Or.inr ⟨?_, hpc, by simpa using hc⟩
        by_contra hne
        have hsame := (pc_of_ne_actor hb hs hne).1
        exact hc ((h.waits c).mpr (hsame.symm.trans hpc))

theorem exists_queued {greeting : List Bytes}
    (h : Sys.Reach (step cfg) anyStep (started cfg greeting) s) : ∃ w, Queued s w := by
  have hall := h.inv (I := fun s => Base s ∧ ∃ w, Queued s w)
    ⟨base_started cfg greeting, [], List.nodup_nil, fun c => ⟨nofun, nofun⟩⟩
    fun _ _ _ hi _ hs => by
      obtain ⟨hb, w, hw⟩ := hi
      exact ⟨step_base hb hs, _, queued_step hb hs hw⟩
  exact hall.2

theorem step_of_inTurn (hturn : Fifo.inTurn ⟨s, w⟩ a = true) (hs : s.step cfg a = some s') :
    Fifo.step cfg ⟨s, w⟩ a = some ⟨s', requeue w s' a⟩ := by
  unfold Fifo.step
  rw [if_pos hturn, hs]
  rfl

theorem idxOf_filter_le {p : Caller → Bool} {c : Caller} (hp : p c = true) (w : List Caller) :
    (w.filter p).idxOf c ≤ w.idxOf c := by
  induction w with
  | nil => exact Nat.le_refl _
  | cons d w ih =>
    by_cases hd : d = c
    · subst hd
      rw [List.filter_cons_of_pos hp, List.idxOf_cons_self]
      exact Nat.zero_le _
    · rw [List.idxOf_cons_ne w hd]
      by_cases hpd : p d = true
      · rw [List.filter_cons_of_pos hpd, List.idxOf_cons_ne _ hd]
        exact Nat.succ_le_succ ih
      · rw [List.filter_cons_of_neg hpd]
        exact Nat.le_succ_of_le ih

theorem requeue_idxOf {c : Caller} (hc : c ∈ w) (hpc : (s'.execs c).pc = .locking) :
    (requeue w s' a).idxOf c ≤ (w.filter fun d => (s'.execs d).pc.isLocking).idxOf c := by
  unfold requeue
  rw [List.idxOf_append_of_mem (List.mem_filter.mpr ⟨hc, ExecPc.isLocking_iff.mpr hpc⟩)]

/-- `c` waits, and with no more before it than in `w` -/
def NotOvertaken (w w' : List Caller) (c : Caller) : Prop := c ∈ w' ∧ w'.idxOf c ≤ w.idxOf c

theorem NotOvertaken.trans {w₁ w₂ w₃ : List Caller} {c : Caller} (h₁ : NotOvertaken w₁ w₂ c)
    (h₂ : NotOvertaken w₂ w₃ c) : NotOvertaken w₁ w₃ c :=
  ⟨h₂.1, h₂.2.trans h₁.2⟩

theorem queued_behind (hb : Base s) (hs : s.step cfg a = some s') (h : Queued s w) {c : Caller}
    (hc : c ∈ w) (ha : a.actor ≠ some c) : NotOvertaken w (requeue w s' a) c := by
  have hpc : (s'.execs c).pc = .locking := (pc_of_ne_actor hb hs ha).1.trans ((h.waits c).mp hc)
  refine ⟨((queued_step hb hs h).waits c).mpr hpc, (requeue_idxOf hc hpc).trans ?_⟩
  exact idxOf_filter_le (ExecPc.isLocking_iff.mpr hpc) w

/-! ## those that are ahead have their turn -/

theorem queued_run {x : Caller} {t : Conn} (hb : Base s) (hw : Queued s w)
    (h : Sys.Reach (step cfg) (Own x) s t) :
    ∃ w', Sys.Reach (Fifo.step cfg) Fifo.Unaided ⟨s, w⟩ ⟨t, w'⟩ ∧ Queued t w' ∧
      ∀ c ∈ w, c ≠ x → NotOvertaken w w' c := by
  have hall := h.inv (I := fun t => Base t ∧ ∃ w',
      Sys.Reach (Fifo.step cfg) Fifo.Unaided ⟨s, w⟩ ⟨t, w'⟩ ∧ Queued t w' ∧
        ∀ c ∈ w, c ≠ x → NotOvertaken w w' c)
    ⟨hb, w, .init, hw, fun c hc _ => ⟨hc, Nat.le_refl _⟩⟩ ?_
  · exact hall.2
  · rintro r a r' ⟨hbr, w', hrun, hq, hbehind⟩ hown hr
    have hturn : Fifo.inTurn ⟨r, w'⟩ a = true := by cases hown <;> rfl
    refine ⟨step_base hbr hr, _, hrun.step (.own hown) (step_of_inTurn hturn hr),
      queued_step hbr hr hq, ?_⟩
    intro c hc hcx
    refine (hbehind c hc hcx).trans (queued_behind hbr hr hq (hbehind c hc hcx).1 ?_)
    cases hown with
    | resume => exact fun h => hcx (Option.some.inj h).symm
    | expire => exact nofun
    | tick => exact nofun

theorem execLine_pc (cfg : Config) (s : Conn) (c : Caller) :
    ((s.execLine cfg c .done).execs c).pc ≠ .locking := by
  unfold execLine
  split
  · unfold finish
    rw [setExec_self]
    exact nofun
  · split
    · unfold finish
      rw [setExec_self]
      exact nofun
    · rw [sendDone_handOver, setExec_self]
      exact nofun

theorem exists_turn (cfg : Config) {d : Caller} (hw : Queued s (d :: w))
    (hnone : s.cmdLock = none) :
    ∃ a s₁, Fifo.Unaided ⟨s, d :: w⟩ a ∧ Fifo.inTurn ⟨s, d :: w⟩ a = true ∧
      a.actor = some d ∧ s.step cfg a = some s₁ ∧ (s₁.execs d).pc ≠ .locking ∧
      s₁.rank cfg d < s.rank cfg d := by
  have hpc : (s.execs d).pc = .locking := (hw.waits d).mp List.mem_cons_self
  by_cases hq : (s.execs d).cancelReq = true
  · have hs : s.resume cfg d {} = some (s.finish d .cancelled) := by
      unfold resume
      simp only [hpc]
      exact if_pos hq
    refine ⟨.resume d {}, _, .own (c := d) .resume, rfl, rfl, hs, ?_, rank_resume_lt hs⟩
    unfold finish
    rw [setExec_self]
    exact nofun
  · refine ⟨.acquire d .done, s.execLine cfg d .done, .acquire, ?_, rfl, ?_, execLine_pc cfg s d,
      rank_execLine_lt hpc .done⟩
    · exact beq_self_eq_true (some d)
    · simp only [step, hpc, hnone, hq]
      rfl

/-- the first one in the queue has its turn, and gives the lock back -/
theorem exists_handover (hb : Base s) {d : Caller} (hw : Queued s (d :: w))
    (hnone : s.cmdLock = none) :
    ∃ t w', Sys.Reach (Fifo.step cfg) Fifo.Unaided ⟨s, d :: w⟩ ⟨t, w'⟩ ∧ Base t ∧ Queued t w' ∧
      t.cmdLock = none ∧ (∀ c ∈ w, NotOvertaken w w' c) ∧ Aside d s t := by
  obtain ⟨a, s₁, hunaided, hturn, hactor, hs₁, hpc₁, _⟩ := exists_turn cfg hw hnone
  have hb₁ := step_base hb hs₁
  have hw₁ := queued_step hb hs₁ hw
  have hreach : Sys.Reach (Fifo.step cfg) Fifo.Unaided ⟨s, d :: w⟩ ⟨s₁, requeue (d :: w) s₁ a⟩ :=
    Sys.Reach.init.step hunaided (step_of_inTurn hturn hs₁)
  have haside₁ : Aside d s s₁ := fun c hc =>
    pc_of_ne_actor hb hs₁ (by rw [hactor]; exact fun h => hc (Option.some.inj h).symm)
  have hne : ∀ c ∈ w, c ≠ d := fun c hc h => (List.nodup_cons.mp hw.nodup).1 (h ▸ hc)
  have hfirst : ∀ c ∈ w, NotOvertaken w (requeue (d :: w) s₁ a) c := by
    intro c hc
    have hpc : (s₁.execs c).pc = .locking :=
      (haside₁ c (hne c hc)).1.trans ((hw.waits c).mp (List.mem_cons_of_mem d hc))
    refine ⟨(hw₁.waits c).mpr hpc, (requeue_idxOf (List.mem_cons_of_mem d hc) hpc).trans ?_⟩
    have hgone : (d :: w).filter (fun c => (s₁.execs c).pc.isLocking)
        = w.filter fun c => (s₁.execs c).pc.isLocking :=
      List.filter_cons_of_neg (mt ExecPc.isLocking_iff.mp hpc₁)
    rw [hgone]
    exact idxOf_filter_le (ExecPc.isLocking_iff.mpr hpc) w
  cases hlock : s₁.cmdLock with
  | none => exact ⟨s₁, _, hreach, hb₁, hw₁, hlock, hfirst, haside₁⟩
  | some y =>
    -- nobody else has taken the lock
    have hyd : y = d := by
      by_contra hyd
      have hcritical : (s₁.execs y).pc.critical = true := (hb₁.session.callers y).holder.mpr hlock
      rw [(haside₁ y hyd).1] at hcritical
      have hbefore : s.cmdLock = some y := (hb.session.callers y).holder.mp hcritical
      rw [hnone] at hbefore
      cases hbefore
    subst hyd
    obtain ⟨t, ht, hfree⟩ := exists_unlocked cfg hb₁ hlock
    obtain ⟨w', hrun, hw', hkept⟩ := queued_run hb₁ hw₁ ht
    obtain ⟨hbt, haside⟩ := own_aside hb₁ ht
    refine ⟨t, w', hreach.trans hrun, hbt, hw', hfree, fun c hc => ?_, fun c hc => ?_⟩
    · exact (hfirst c hc).trans (hkept c (hfirst c hc).1 (hne c hc))
    · exact ⟨(haside c hc).1.trans (haside₁ c hc).1, (haside c hc).2.trans (haside₁ c hc).2⟩

/-- those that are ahead of `c` have their turns, one after the other -/
theorem exists_first (cfg : Config) {c : Caller} (hb : Base s) (hw : Queued s w)
    (hnone : s.cmdLock = none) (hc : c ∈ w) :
    ∃ t w', Sys.Reach (Fifo.step cfg) Fifo.Unaided ⟨s, w⟩ ⟨t, c :: w'⟩ ∧ Base t ∧
      Queued t (c :: w') ∧ t.cmdLock = none ∧ t.rank cfg c = s.rank cfg c := by
  let I (r : Fifo) : Prop := Base r.conn ∧ Queued r.conn r.waiters ∧ r.conn.cmdLock = none ∧
    c ∈ r.waiters ∧ r.conn.rank cfg c = s.rank cfg c
  have hlower : ∀ r : Fifo, I r → r.waiters.idxOf c ≠ 0 →
      ∃ t, Sys.Reach (Fifo.step cfg) Fifo.Unaided r t ∧ I t ∧
        t.waiters.idxOf c < r.waiters.idxOf c := by
    rintro ⟨r, wr⟩ ⟨hbr, hwr, hfree, hcr, hrank⟩ hahead
    cases wr with
    | nil => cases hcr
    | cons d wr =>
      have hd : d ≠ c := by
        rintro rfl
        exact hahead List.idxOf_cons_self
      have hcr : c ∈ wr := (List.mem_cons.mp hcr).resolve_left (Ne.symm hd)
      obtain ⟨t, wt, hrun, hbt, hwt, hfree, hkept, haside⟩ := exists_handover hbr hwr hfree
      obtain ⟨hpc, hattempt⟩ := haside c (Ne.symm hd)
      refine ⟨⟨t, wt⟩, hrun, ⟨hbt, hwt, hfree, (hkept c hcr).1,
        (rank_congr hpc hattempt).trans hrank⟩, ?_⟩
      show wt.idxOf c < (d :: wr).idxOf c
      rw [List.idxOf_cons_ne _ hd]
      exact Nat.lt_succ_of_le (hkept c hcr).2
  obtain ⟨⟨t, wt⟩, hrun, ⟨hbt, hwt, hfree, hct, hrank⟩, hzero⟩ :=
    Sys.exists_reach_of_rank (Fifo.step cfg) (fun r => r.waiters.idxOf c) hlower ⟨s, w⟩
      ⟨hb, hw, hnone, hc, rfl⟩
  cases wt with
  | nil => cases hct
  | cons d wt =>
    by_cases hd : d = c
    · subst hd
      exact ⟨t, wt, hrun, hbt, hwt, hfree, hrank⟩
    · have hidx : (d :: wt).idxOf c = 0 := hzero
      rw [List.idxOf_cons_ne _ hd] at hidx
      cases hidx

/-- the lock can be free, with everybody who waits for it where he was -/
theorem exists_free (cfg : Config) (hb : Base s) (hw : Queued s w) :
    ∃ t w', Sys.Reach (Fifo.step cfg) Fifo.Unaided ⟨s, w⟩ ⟨t, w'⟩ ∧ Base t ∧ Queued t w' ∧
      t.cmdLock = none ∧ ∀ c ∈ w, c ∈ w' ∧ t.rank cfg c = s.rank cfg c := by
  cases howner : s.cmdLock with
  | none => exact ⟨s, w, .init, hb, hw, howner, fun c hc => ⟨hc, rfl⟩⟩
  | some y =>
    obtain ⟨t, ht, hfree⟩ := exists_unlocked cfg hb howner
    obtain ⟨w', hrun, hw', hkept⟩ := queued_run hb hw ht
    obtain ⟨hbt, haside⟩ := own_aside hb ht
    refine ⟨t, w', hrun, hbt, hw', hfree, fun c hc => ?_⟩
    have hcy : c ≠ y := by
      rintro rfl
      have hcritical : (s.execs c).pc.critical = true := (hb.session.callers c).holder.mpr howner
      rw [(hw.waits c).mp hc] at hcritical
      cases hcritical
    exact ⟨(hkept c hc hcy).1, rank_congr (haside c hcy).1 (haside c hcy).2⟩

/-- **A call comes on**, and if it waits for the lock, then in its turn. -/
theorem exists_progress (cfg : Config) (hb : Base s) (hw : Queued s w) {c : Caller}
    (hbusy : (s.execs c).pc.free = false) :
    ∃ t w', Sys.Reach (Fifo.step cfg) Fifo.Unaided ⟨s, w⟩ ⟨t, w'⟩ ∧ Base t ∧ Queued t w' ∧
      t.rank cfg c < s.rank cfg c := by
  by_cases hpc : (s.execs c).pc = .locking
  · obtain ⟨s₁, w₁, hrun₁, hb₁, hw₁, hfree₁, hkept⟩ := exists_free cfg hb hw
    obtain ⟨hc₁, hrank₁⟩ := hkept c ((hw.waits c).mpr hpc)
    obtain ⟨s₂, w₂, hrun₂, hb₂, hw₂, hfree₂, hrank₂⟩ := exists_first cfg hb₁ hw₁ hfree₁ hc₁
    obtain ⟨a, t, hunaided, hturn, _, ht, _, hlt⟩ := exists_turn cfg hw₂ hfree₂
    refine ⟨t, _, (hrun₁.trans hrun₂).step hunaided (step_of_inTurn hturn ht),
      step_base hb₂ ht, queued_step hb₂ ht hw₂, ?_⟩
    rw [hrank₂, hrank₁] at hlt
    exact hlt
  · obtain ⟨t, ht, hlt⟩ := exists_lower cfg hbusy hpc
    obtain ⟨w', hrun, hw', _⟩ := queued_run hb hw ht
    exact ⟨t, w', hrun, (own_aside hb ht).1, hw', hlt⟩

end

/-! ## no deadlock -/

/-- **No deadlock.**  In every state that a connection reaches, whatever the order in which the
callers wait for the lock, every call of `exec` can come to its end without the server and without
any user: by the timers, and by the tasks inside `exec`, which obtain the lock in this order. -/
theorem exec_can_end {cfg : Config} {greeting : List Bytes} {s : Conn} (c : Caller)
    (h : Sys.Reach (step cfg) anyStep (started cfg greeting) s) :
    (∃ w, Queued s w) ∧ ∀ w, Queued s w → ∃ t, Sys.Reach (Fifo.step cfg) Fifo.Unaided ⟨s, w⟩ t ∧
      (t.conn.execs c).pc.free = true := by
  refine ⟨exists_queued h, fun w hw => ?_⟩
  have hlower : ∀ r : Fifo, (Base r.conn ∧ Queued r.conn r.waiters) → r.conn.rank cfg c ≠ 0 →
      ∃ t, Sys.Reach (Fifo.step cfg) Fifo.Unaided r t ∧ (Base t.conn ∧ Queued t.conn t.waiters) ∧
        t.conn.rank cfg c < r.conn.rank cfg c := by
    rintro ⟨r, wr⟩ ⟨hbr, hwr⟩ hrank
    have hbusy : (r.execs c).pc.free = false :=
      Bool.eq_false_iff.mpr fun hf => hrank (ExecPc.rank_eq_zero.mpr hf)
    obtain ⟨t, w', hrun, hbt, hwt, hlt⟩ := exists_progress cfg hbr hwr hbusy
    exact ⟨⟨t, w'⟩, hrun, ⟨hbt, hwt⟩, hlt⟩
  obtain ⟨t, ht, _, hzero⟩ := Sys.exists_reach_of_rank (Fifo.step cfg)
    (fun r => r.conn.rank cfg c) hlower ⟨s, w⟩ ⟨reach_base h, hw⟩
  exact ⟨t, ht, ExecPc.rank_eq_zero.mp hzero⟩

def waitingRun : List Action :=
  [.exec 0 (lit "version") [] none [], .exec 1 (lit "whoami") [] none [],
    .exec 2 (lit "clientlist") [] none [], .acquire (.task 0) .done]

theorem exec_can_end_waiting :
    ∃ s w t, Sys.run (step {}) (started {} []) waitingRun = some s ∧ Queued s w ∧
      (s.execs (.task 2)).pc.free = false ∧
      Sys.Reach (Fifo.step {}) Fifo.Unaided ⟨s, w⟩ t ∧
      (t.conn.execs (.task 2)).pc.free = true := by
  obtain ⟨s, hs, h⟩ := Sys.exists_reach (step {}) anyStep (started {} []) waitingRun
    (fun _ _ => trivial) (by decide +kernel)
  have hbusy : (s.execs (.task 2)).pc.free = false :=
    Sys.eq_of_run_map (f := fun s : Conn => (s.execs (.task 2)).pc.free) hs (by decide +kernel)
  obtain ⟨⟨w, hw⟩, hend⟩ := exec_can_end (.task 2) h
  obtain ⟨t, ht, hfree⟩ := hend w hw
  exact ⟨s, w, t, hs, hw, hbusy, ht, hfree⟩

end Conn
end Atsq
