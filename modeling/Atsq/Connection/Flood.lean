import Atsq.Connection.Attempts

/-!
# Flood retry is exact

* `Sleeps`       what a step may do to the sleep between two attempts;
* `Exact`        what holds of a call at any moment: the lines it sent, its result, its sleeps;
* `Ready`        an undisturbed call before an attempt, on a quiet connection.

Main results: `flood_retry_exact`, and `exists_answered_run`: whatever the server answers, an
undisturbed call gets to its end.
-/

namespace Atsq
open Py

namespace Conn
open Session

/-! ## the sleep between two attempts -/

/-- what a step may do to the sleep of a call that sent `xs` -/
structure Sleeps (s s' : Conn) (c : Caller) (xs : List Sent) : Prop where
  /-- the call falls asleep for the hint of the last answer, a flood, and a tenth of a second -/
  falls : ∀ wake, (s.execs c).pc ≠ .sleeping wake → (s'.execs c).pc = .sleeping wake →
    ∃ x a, xs.getLast? = some x ∧ Answered s.received x.mark a.1 a.2 ∧ Flooded a ∧
      wake = s.now + (hintOf a + 1 / 10)
  /-- it tries again only after that -/
  wakes : (s.execs c).pc ≠ .locking → (s'.execs c).pc = .locking →
    ∃ wake, (s.execs c).pc = .sleeping wake ∧ wake ≤ s.now
  /-- and each attempt waits for the lock before it sends -/
  sends : s'.session.sentBy c ≠ s.session.sentBy c → (s.execs c).pc = .locking

section
variable {cfg : Config} {s s' : Conn} {c : Caller} {line : Bytes} {base ys zs : List Sent}
  {as : List Ans}

theorem step_sleeps {a : Action} (hb : Base s) (hs : s.step cfg a = some s') (ha : ¬ Starts c a)
    (h : Attempts cfg s c line base ys zs as) : Sleeps s s' c (ys ++ zs) := by
  have silent : Steady s.session s'.session c →
      s'.session.sentBy c ≠ s.session.sentBy c → (s.execs c).pc = .locking :=
    fun hst hne => absurd hst.sent hne
  have awake : ∀ {pc : ExecPc}, (s'.execs c).pc = pc → pc.critical = true ∨ pc.free = true →
      (∀ wake, (s'.execs c).pc ≠ .sleeping wake) ∧ (s'.execs c).pc ≠ .locking := by
    rintro pc hpc hor
    refine ⟨?_, ?_⟩
    · rintro wake hw
      rw [← hpc, hw] at hor
      rcases hor with h | h <;> cases h
    · intro hl
      rw [← hpc, hl] at hor
      rcases hor with h | h <;> cases h
  have other : ∀ {pc : ExecPc}, (s'.execs c).pc = pc → pc.critical = true ∨ pc.free = true →
      (s'.session.sentBy c ≠ s.session.sentBy c → (s.execs c).pc = .locking) →
      Sleeps s s' c (ys ++ zs) := fun hpc hor hsend =>
    ⟨fun wake _ hw => absurd hw ((awake hpc hor).1 wake),
      fun _ hl => absurd hl (awake hpc hor).2, hsend⟩
  cases step_call hb hs c ha with
  | still hst hpc =>
    refine ⟨fun wake hne hw => absurd (hpc.symm.trans hw) hne,
      fun hne hl => absurd (hpc.symm.trans hl) hne, silent hst⟩
  | handOver _ hpc _ _ _ _ _ _ _ _ _ hpc' =>
    rcases hpc' with hpc' | hpc' | ⟨_, hpc', _, _⟩
    · exact other hpc' (Or.inl rfl) (fun _ => hpc)
    · exact other hpc' (Or.inl rfl) (fun _ => hpc)
    · exact other hpc' (Or.inr rfl) (fun _ => hpc)
  | await hst _ hpc' => exact other hpc' (Or.inl rfl) (silent hst)
  | close p hst _ hpc' _ => exact other hpc' (Or.inl rfl) (silent hst)
  | answer data error hst hc hf hpc' =>
    obtain ⟨x, hz, hans⟩ := h.last hb hc hf
    rcases answerPc_cases cfg s.now (s.execs c).attempt (data, error) with
      ⟨hflood, _, he⟩ | ⟨_, he⟩
    · rw [he] at hpc'
      refine ⟨fun wake _ hw => ?_, fun _ hl => ?_, silent hst⟩
      · rw [hpc'] at hw
        cases hw
        refine ⟨x, (data, error), ?_, hans, hflood, rfl⟩
        rw [hz, List.getLast?_concat]
      · rw [hpc'] at hl
        cases hl
    · exact other (hpc'.trans he) (Or.inr rfl) (silent hst)
  | stop o hst _ hpc' _ _ => exact other hpc' (Or.inr rfl) (silent hst)
  | retry wake hpc hle he =>
    refine ⟨fun wake' _ hw => ?_, fun _ _ => ⟨wake, hpc, hle⟩, fun hne => absurd ?_ hne⟩
    · rw [he] at hw
      unfold startAttempt at hw
      split at hw
      · rw [setExec_self] at hw
        cases hw
      · rw [finish_pc] at hw
        cases hw
    · rw [he]
      unfold startAttempt
      split <;> rfl

end

/-! ## an undisturbed call -/

/-- before an attempt, on a quiet connection -/
structure Ready (s : Conn) (c : Caller) : Prop where
  pc : (s.execs c).pc = .locking
  lock : s.cmdLock = none
  opened : ¬ Disturbed s c
  buffer : s.dataBuffer = []

/-- its line is sent, and nothing but data has come back since -/
structure UnderWay (s : Conn) (c : Caller) : Prop where
  pc : ∃ d, (s.execs c).pc = .awaiting d
  future : (s.execs c).future = .pending
  expired : (s.execs c).expired = false
  pending : s.pending = some c
  opened : ¬ Disturbed s c

/-- `s'` comes after `s` in the same attempt at the same time, and `lines` have arrived between -/
structure Arrives (s s' : Conn) (c : Caller) (lines : List Bytes) : Prop where
  now : s'.now = s.now
  attempt : (s'.execs c).attempt = (s.execs c).attempt
  received : s'.received = s.received ++ lines

section
variable (cfg : Config) {s : Conn} {c : Caller}

theorem flags_of_not_disturbed (h : ¬ Disturbed s c) :
    s.closed = false ∧ s.transport.closed = false ∧ (s.execs c).cancelReq = false :=
  ⟨Bool.eq_false_iff.mpr fun e => h (Or.inl e),
    Bool.eq_false_iff.mpr fun e => h (Or.inr (Or.inl e)),
    Bool.eq_false_iff.mpr fun e => h (Or.inr (Or.inr e))⟩

theorem send_attempt (h : Ready s c) : ∃ s', Sys.Reach (step cfg) (sameCall c) s s' ∧
    UnderWay s' c ∧ Arrives s s' c [] ∧ s'.dataBuffer = [] := by
  obtain ⟨hclosed, hlost, hq⟩ := flags_of_not_disturbed h.opened
  obtain ⟨t, ht⟩ : ∃ t, s.transport.sendLine (s.execs c).line = some t := by
    unfold SshTransport.sendLine
    rw [hlost]
    exact ⟨_, rfl⟩
  have hstep : s.step cfg (.acquire c .done) = some (s.execLine cfg c .done) := by
    simp only [step, h.pc, h.lock, hq]
    rfl
  have hexec := exec_handOver s c t
  have hline : s.execLine cfg c .done = (s.handOver c t).touch.setExec c
      { (s.handOver c t).execs c with pc := .awaiting (s.now + cfg.commandTimeout) } := by
    unfold execLine
    rw [hclosed, if_neg (by decide), ht]
    exact sendDone_handOver cfg s c t
  have hself : ((s.execLine cfg c .done).execs c) = { s.execs c with
      pc := .awaiting (s.now + cfg.commandTimeout), future := .pending, handed := true,
      expired := false } := by
    rw [hline, setExec_self, hexec]
  refine ⟨_, Sys.Reach.init.step (fun hstart => ?_) hstep, ⟨⟨_, by rw [hself]⟩, by rw [hself],
    by rw [hself], by rw [hline]; rfl, ?_⟩, ⟨by rw [hline]; rfl, by rw [hself], ?_⟩, ?_⟩
  · cases c <;> exact hstart
  · have htc := (sendLine_flags ht).2.1
    rintro (e | e | e)
    · rw [hline] at e
      exact h.opened (Or.inl e)
    · rw [hline] at e
      have e : t.closed = true := e
      rw [htc] at e
      cases e
    · have e : ((s.execLine cfg c .done).execs c).cancelReq = true := e
      rw [hself] at e
      exact h.opened (Or.inr (Or.inr e))
  · rw [hline, List.append_nil]
    rfl
  · rw [hline]
    exact h.buffer

theorem not_starts_recv (c : Caller) (line : Bytes) : ¬ Starts c (.recv line) := by
  cases c <;> exact id

theorem recv_attempt (hb : Base s) (h : UnderWay s c) (lines : List Bytes)
    (hlines : ∀ l ∈ lines, isDataLine l = true) :
    ∃ s', Sys.Reach (step cfg) (sameCall c) s s' ∧ UnderWay s' c ∧ Arrives s s' c lines ∧
      s'.dataBuffer = s.dataBuffer ++ lines := by
  induction lines generalizing s with
  | nil => exact ⟨s, .init, h, ⟨rfl, rfl, (List.append_nil _).symm⟩, (List.append_nil _).symm⟩
  | cons l lines ih =>
    have hrun : s.recvTask = .running := hb.tasks.recv.mpr (flags_of_not_disturbed h.opened).1
    have hstep : s.step cfg (.recv l) = some (s.recvLine l) := by
      simp only [step]
      rw [if_pos hrun]
    have hline := recvLine_data (s := s) (hlines l List.mem_cons_self)
    have h' : UnderWay (s.recvLine l) c := by
      rw [hline]
      exact ⟨h.pc, h.future, h.expired, h.pending, h.opened⟩
    obtain ⟨s', hreach, hs', harr, hbuf⟩ := ih (step_base hb hstep) h'
      (fun x hx => hlines x (List.mem_cons_of_mem _ hx))
    have hfirst : Sys.Reach (step cfg) (sameCall c) s (s.recvLine l) :=
      Sys.Reach.init.step (not_starts_recv c l) hstep
    refine ⟨s', hfirst.trans hreach, hs', ⟨?_, ?_, ?_⟩, ?_⟩
    · rw [harr.now, hline]
    · rw [harr.attempt, hline]
    · rw [harr.received, hline, List.append_assoc]
      rfl
    · rw [hbuf, hline, List.append_assoc]
      rfl

theorem answer_attempt (hb : Base s) (h : UnderWay s c) {line : Bytes} {error : ErrorLine}
    (hline : parseErrorLine line = .ok error) :
    ∃ s', Sys.Reach (step cfg) (sameCall c) s s' ∧
      (s'.execs c).pc = answerPc cfg s.now (s.execs c).attempt s.dataBuffer error ∧
      Arrives s s' c [line] ∧ s'.cmdLock = none ∧ ¬ Disturbed s' c ∧ s'.dataBuffer = [] := by
  have herr : isErrorLine line = true := by
    unfold parseErrorLine at hline
    split at hline
    · assumption
    · cases hline
  obtain ⟨hclosed, hlost, hq⟩ := flags_of_not_disturbed h.opened
  have hrun : s.recvTask = .running := hb.tasks.recv.mpr hclosed
  obtain ⟨d, hpc⟩ := h.pc
  have hrecv : s.recvLine line
      = setExec { s with received := s.received ++ [line], dataBuffer := [] } c
          { s.execs c with future := .result s.dataBuffer error } := by
    rw [recvLine_error herr hline]
    unfold settle
    simp only [h.pending, h.future]
  have hexec : (s.recvLine line).execs c
      = { s.execs c with future := .result s.dataBuffer error } := by
    rw [hrecv, setExec_self]
  have h1 : s.step cfg (.recv line) = some (s.recvLine line) := by
    simp only [step]
    rw [if_pos hrun]
  have h2 : (s.recvLine line).step cfg (.resume c {})
      = some ((s.recvLine line).complete cfg c s.dataBuffer error) := by
    show (s.recvLine line).resume cfg c {} = _
    unfold resume
    simp only [hexec, hpc, hq, h.expired]
    unfold awaitFuture
    simp only [hexec]
    rfl
  rw [complete_eq, hexec] at h2
  have hresume : ¬ Starts c (.resume c {}) := by cases c <;> exact id
  refine ⟨_, (Sys.Reach.init.step (not_starts_recv c line) h1).step hresume h2, ?_, ?_, rfl, ?_, ?_⟩
  · rw [setExec_self]
    show answerPc cfg (s.recvLine line).now _ _ _ = _
    rw [hrecv]
    rfl
  · refine ⟨?_, ?_, ?_⟩
    · show (s.recvLine line).now = s.now
      rw [hrecv]
      rfl
    · rw [setExec_self]
    · show (s.recvLine line).received = _
      rw [hrecv]
      rfl
  · rintro (e | e | e)
    · have e : (s.recvLine line).closed = true := e
      rw [hrecv] at e
      exact h.opened (Or.inl e)
    · have e : (s.recvLine line).transport.closed = true := e
      rw [hrecv] at e
      exact h.opened (Or.inr (Or.inl e))
    · have e : (((s.recvLine line).leave.touch.setExec c _).execs c).cancelReq = true := e
      rw [setExec_self] at e
      exact h.opened (Or.inr (Or.inr e))
  · show (s.recvLine line).dataBuffer = []
    rw [hrecv]
    rfl

/-- one attempt, from the lock to the answer -/
theorem run_attempt (hb : Base s) (h : Ready s c) (a : Ans) {line : Bytes}
    (hdata : ∀ l ∈ a.1, isDataLine l = true) (hline : parseErrorLine line = .ok a.2) :
    ∃ s', Sys.Reach (step cfg) (sameCall c) s s' ∧
      (s'.execs c).pc = answerPc cfg s.now (s.execs c).attempt a.1 a.2 ∧
      Arrives s s' c (a.1 ++ [line]) ∧ s'.cmdLock = none ∧ ¬ Disturbed s' c ∧
      s'.dataBuffer = [] := by
  obtain ⟨s₁, h1, hu1, ha1, hbuf1⟩ := send_attempt cfg h
  have hb1 : Base s₁ := h1.inv hb fun _ _ _ hb _ hs => step_base hb hs
  obtain ⟨s₂, h2, hu2, ha2, hbuf2⟩ := recv_attempt cfg hb1 hu1 a.1 hdata
  have hb2 : Base s₂ := h2.inv hb1 fun _ _ _ hb _ hs => step_base hb hs
  obtain ⟨s₃, h3, hpc, ha3, hlock, hd, hbuf3⟩ := answer_attempt cfg hb2 hu2 hline
  rw [hbuf1, List.nil_append] at hbuf2
  rw [hbuf2, ha2.now, ha2.attempt, ha1.now, ha1.attempt] at hpc
  refine ⟨s₃, (h1.trans h2).trans h3, hpc, ⟨?_, ?_, ?_⟩, hlock, hd, hbuf3⟩
  · rw [ha3.now, ha2.now, ha1.now]
  · rw [ha3.attempt, ha2.attempt, ha1.attempt]
  · rw [ha3.received, ha2.received, ha1.received, List.append_nil, List.append_assoc]

theorem hintOf_nonneg (a : Ans) : 0 ≤ hintOf a := by
  unfold hintOf QueryError.retryAfter
  split
  · exact Nat.cast_nonneg _
  · exact zero_le_one

theorem run_sleep {wake : ℚ} (hpc : (s.execs c).pc = .sleeping wake) (hlock : s.cmdLock = none)
    (hd : ¬ Disturbed s c) (hbuf : s.dataBuffer = [])
    (hn : (((s.execs c).attempt + 1 : Nat) : Int) < cfg.floodRetries + 1) (hwake : s.now ≤ wake) :
    ∃ s', Sys.Reach (step cfg) (sameCall c) s s' ∧ Ready s' c ∧
      (s'.execs c).attempt = (s.execs c).attempt + 1 ∧ s'.received = s.received := by
  obtain ⟨_, _, hq⟩ := flags_of_not_disturbed hd
  let t : Conn := { s with now := s.now + (wake - s.now) }
  have h1 : s.step cfg (.tick (wake - s.now)) = some t := if_pos (sub_nonneg.mpr hwake)
  have h2 : t.step cfg (.resume c {}) = some (t.startAttempt cfg c ((s.execs c).attempt + 1)) := by
    have hle : wake ≤ t.now := le_of_eq (add_sub_cancel s.now wake).symm
    have hexec : t.execs c = s.execs c := rfl
    show t.resume cfg c {} = _
    unfold resume
    simp only [hexec, hpc, hq, if_pos hle]
    rfl
  have hstart : t.startAttempt cfg c ((s.execs c).attempt + 1)
      = t.setExec c { s.execs c with pc := .locking, attempt := (s.execs c).attempt + 1 } := by
    unfold startAttempt
    rw [if_pos hn]
  rw [hstart] at h2
  have htick : ¬ Starts c (.tick (wake - s.now)) := by cases c <;> exact id
  have hresume : ¬ Starts c (.resume c {}) := by cases c <;> exact id
  refine ⟨_, (Sys.Reach.init.step htick h1).step hresume h2, ⟨?_, hlock, ?_, hbuf⟩, ?_, rfl⟩
  · rw [setExec_self]
  · rintro (e | e | e)
    · exact hd (Or.inl e)
    · exact hd (Or.inr (Or.inl e))
    · have e : ((t.setExec c _).execs c).cancelReq = true := e
      rw [setExec_self] at e
      exact hd (Or.inr (Or.inr e))
  · rw [setExec_self]

end

/-- **Whatever the server answers, an undisturbed call gets to its end**: there is a run in which
`answers` come in their order, the terminators being the lines `terminators`, and the call ends with
the answer that decides. -/
theorem exists_answered_run {cfg : Config} {c : Caller} {answers : Nat → Ans}
    {terminators : Nat → Bytes} {m : Nat} (hm : Decides cfg.floodRetries answers m)
    (hdata : ∀ i, ∀ l ∈ (answers i).1, isDataLine l = true)
    (hline : ∀ i, parseErrorLine (terminators i) = .ok (answers i).2) {j : Nat} (hj : j ≤ m)
    {s : Conn} (hb : Base s) (h : Ready s c) (hattempt : (s.execs c).attempt = j) :
    ∃ s', Sys.Reach (step cfg) (sameCall c) s s' ∧
      (s'.execs c).pc = .finished (resultOf (answers m)) ∧
      s'.received = s.received ++ (List.range' j (m + 1 - j)).flatMap fun i =>
        (answers i).1 ++ [terminators i] := by
  obtain ⟨s₁, h1, hpc, harr, hlock, hd, hbuf⟩ :=
    run_attempt cfg hb h (answers j) (hdata j) (hline j)
  have hle := hm.le
  rw [hattempt] at hpc
  rcases Nat.eq_or_lt_of_le hj with rfl | hlt
  · refine ⟨s₁, h1, ?_, ?_⟩
    · rcases answerPc_cases cfg s.now j (answers j) with ⟨hflood, hne, _⟩ | ⟨_, he⟩
      · exact absurd (hm.last hflood) hne
      · exact hpc.trans he
    · rw [harr.received, Nat.add_sub_cancel_left]
      simp
  · -- a flood that is retried: the call sleeps, and then comes the next attempt
    rcases answerPc_cases cfg s.now j (answers j) with ⟨_, _, he⟩ | ⟨hlast, _⟩
    · have hlt' : (((s₁.execs c).attempt + 1 : Nat) : Int) < cfg.floodRetries + 1 := by
        rw [harr.attempt, hattempt]
        push_cast
        omega
      have hwake : s₁.now ≤ s.now + (hintOf (answers j) + 1 / 10) := by
        rw [harr.now]
        have := hintOf_nonneg (answers j)
        exact le_add_of_nonneg_right (add_nonneg this (by decide +kernel))
      obtain ⟨s₂, h2, hready, hatt, hrec⟩ := run_sleep cfg (hpc.trans he) hlock hd hbuf hlt' hwake
      have hb2 : Base s₂ := (h1.trans h2).inv hb fun _ _ _ hb _ hs => step_base hb hs
      obtain ⟨s₃, h3, hpc3, hrec3⟩ := exists_answered_run hm hdata hline (j := j + 1) hlt hb2 hready
        (by rw [hatt, harr.attempt, hattempt])
      refine ⟨s₃, (h1.trans h2).trans h3, hpc3, ?_⟩
      have hcount : m + 1 - j = (m + 1 - (j + 1)) + 1 := by omega
      rw [hrec3, hrec, harr.received, hcount, List.range'_succ, List.flatMap_cons,
        List.append_assoc]
    · have := hlast (hm.floods j hlt)
      omega
termination_by m - j

/-! ## the whole call -/

/-- what holds at any moment of a call with the line `line`, `xs` being the lines it has sent, with
`n` retries -/
structure Exact (n : Nat) (s : Conn) (c : Caller) (line : Bytes) (xs : List Sent) : Prop where
  lines : ∀ x ∈ xs, x.line = line
  /-- the answer after `k` floods is the result, if there are so many retries -/
  retried : ∀ answers k, AnsweredBy s xs answers → k ≤ n → (∀ i < k, Flooded (answers i)) →
    ¬ Flooded (answers k) → xs.length ≤ k + 1 ∧
      ∀ o, (s.execs c).pc = .finished o → o.early = false →
        xs.length = k + 1 ∧ o = resultOf (answers k)
  /-- and if not, the last flood is -/
  exhausted : ∀ answers, AnsweredBy s xs answers → (∀ i ≤ n, Flooded (answers i)) →
    xs.length ≤ n + 1 ∧ ∀ o, (s.execs c).pc = .finished o → o.early = false →
      xs.length = n + 1 ∧ ∃ e, o = .queryError e ∧ e.flood = true ∧
        e = .create (answers n).2.id (answers n).2.msg (answers n).2.extra
  /-- every other end has another cause -/
  early : ∀ o, (s.execs c).pc = .finished o → o.early = true → Excused s c o
  unlocked : (s.execs c).pc.between = true → s.cmdLock ≠ some c
  noAssertion : (s.execs c).pc ≠ .finished .assertionError

/-- the hint of an answer, in terms of the text of its `extra_msg` -/
def HintSpec (a : Ans) : Prop :=
  let msg := (getItem a.2.extra (lit "extra_msg")).getD []
  ((∀ pre rest n, msg = pre ++ rest → ¬ WaitHint rest n) → hintOf a = 1) ∧
  ∀ pre rest n, msg = pre ++ rest → WaitHint rest n →
    (∀ pre' rest' m, msg = pre' ++ rest' → WaitHint rest' m → pre.length ≤ pre'.length) →
    hintOf a = n

theorem hintSpec (a : Ans) : HintSpec a := by
  have hextra : (QueryError.create a.2.id a.2.msg a.2.extra).extra = a.2.extra := rfl
  refine ⟨fun h => ?_, fun pre rest n he hw hfirst => ?_⟩
  · unfold hintOf QueryError.retryAfter
    rw [hextra, searchWait_eq_none.mpr h]
  · unfold hintOf QueryError.retryAfter
    rw [hextra, searchWait_eq_some.mpr ⟨pre, rest, he, hw, hfirst⟩]

section
variable {cfg : Config} {s : Conn} {c : Caller} {line : Bytes} {base ys zs : List Sent}
  {as : List Ans} {n : Nat}

theorem Attempts.exact (hb : Base s) (hn : cfg.floodRetries = n)
    (h : Attempts cfg s c line base ys zs as) : Exact n s c line (ys ++ zs) where
  lines := h.lines
  retried answers k ha hk hfloods hlast := by
    have hm : Decides cfg.floodRetries answers k :=
      ⟨by omega, hfloods, fun hf => absurd hf hlast⟩
    exact h.decided ha hm
  exhausted answers ha hfloods := by
    have hm : Decides cfg.floodRetries answers n :=
      ⟨by omega, fun i hi => hfloods i (Nat.le_of_lt hi), fun _ => hn.symm⟩
    obtain ⟨h1, h2⟩ := h.decided ha hm
    refine ⟨h1, fun o ho hearly => ?_⟩
    obtain ⟨h3, h4⟩ := h2 o ho hearly
    have hf := hfloods n (Nat.le_refl n)
    refine ⟨h3, _, ?_, (create_flood (answers n)).mpr hf, rfl⟩
    rw [h4]
    unfold resultOf
    rw [not_ok_of_flooded hf]
    rfl
  early := h.early
  unlocked hbetween hlock := by
    have hc : (s.execs c).pc.critical = true := (hb.session.callers c).holder.mpr hlock
    rw [ExecPc.between_of_critical hc] at hbetween
    cases hbetween
  noAssertion hpc := by
    have hstage := h.stage
    rw [hpc] at hstage
    generalize ho : Outcome.assertionError = o at hstage
    cases hstage with
    | inside hc => cases hc
    | result init a =>
      unfold resultOf at ho
      split at ho <;> cases ho
    | early he =>
      rw [← ho] at he
      cases he

end

/-- **Flood retry is exact**: for every call of `exec` that has rendered its line, in every run. -/
theorem flood_retry_exact {cfg : Config} {greeting : List Bytes} {s₀ s₁ : Conn} {c : Caller}
    {a : Action} {n : Nat} (hn : cfg.floodRetries = n)
    (h₀ : Sys.Reach (step cfg) anyStep (started cfg greeting) s₀) (ha : Starts c a)
    (hs : s₀.step cfg a = some s₁) (hpc : (s₁.execs c).pc = .locking) :
    ∃ line, a.text = .ok line ∧
      (∀ s, Sys.Reach (step cfg) (sameCall c) s₁ s →
        ∃ xs, s.session.sentBy c = s₀.session.sentBy c ++ xs ∧ Exact n s c line xs ∧
          ∀ b s', ¬ Starts c b → s.step cfg b = some s' → Sleeps s s' c xs) ∧
      (∀ answer, HintSpec answer) ∧
      (Ready s₁ c → ∀ (answers : Nat → Ans) (terminators : Nat → Bytes) (m : Nat),
        Decides n answers m → (∀ i, ∀ l ∈ (answers i).1, isDataLine l = true) →
        (∀ i, parseErrorLine (terminators i) = .ok (answers i).2) →
        ∃ s, Sys.Reach (step cfg) (sameCall c) s₁ s ∧
          (s.execs c).pc = .finished (resultOf (answers m)) ∧
          s.received = s₁.received ++ (List.range (m + 1)).flatMap fun i =>
            (answers i).1 ++ [terminators i]) := by
  have hb₀ := reach_base h₀
  have hb₁ := step_base hb₀ hs
  obtain ⟨h₁, htext⟩ := start_call hb₀ ha hs hpc
  refine ⟨_, htext, fun s h => ?_, hintSpec, fun hready answers terminators m hm hdata hline => ?_⟩
  · obtain ⟨hb, ys, zs, as, hatt⟩ := attempts_of_run hb₁ h₁ h
    exact ⟨ys ++ zs, hatt.sent, hatt.exact hb hn, fun b s' hstart hstep =>
      step_sleeps hb hstep hstart hatt⟩
  · have hattempt : (s₁.execs c).attempt = 0 := by
      obtain ⟨h, _⟩ := h₁.stage.of_locking hpc
      exact h.symm
    rw [← hn] at hm
    rw [List.range_eq_range']
    exact exists_answered_run hm hdata hline (Nat.zero_le m) hb₁ hready hattempt

def floodRun : List Action :=
  [.acquire (.task 0) .done,
    .recv (ascii "error id=524 msg=client\\sis\\sflooding extra_msg=please\\swait\\s1\\sseconds"),
    .resume (.task 0) {}, .tick (11 / 10), .resume (.task 0) {}, .acquire (.task 0) .done,
    .recv (ascii "error id=0 msg=ok"), .resume (.task 0) {}]

def floodCheck : Action → Bool
  | .exec .. => false
  | _ => true

theorem sameCall_of_check (s : Conn) (a : Action) (h : floodCheck a = true) :
    sameCall (.task 0) s a := by
  cases a with
  | exec => cases h
  | _ => exact id

theorem flood_retry_exact_once :
    ∃ s₁ s, (started {} []).step {} (.exec 0 (lit "version") [] none []) = some s₁ ∧
      Sys.run (step {}) s₁ floodRun = some s ∧
      ∃ xs, s.session.sentBy (.task 0) = xs ∧ xs.length = 2 ∧
        Exact 2 s (.task 0) (ascii "version") xs := by
  let s₁ := (started {} []).startExec {} (.task 0) (.ok (ascii "version"))
  have hrender : renderCommand (lit "version") [] none [] = .ok (ascii "version") := by
    decide +kernel
  have hs₁ : (started {} []).step {} (.exec 0 (lit "version") [] none []) = some s₁ := by
    simp only [step, hrender]
    rfl
  have hstarts : Starts (.task 0) (.exec 0 (lit "version") [] none []) := rfl
  obtain ⟨s, hs, h⟩ := Sys.exists_reach_of_guard (step {}) (sameCall (.task 0))
    (fun _ a => floodCheck a) s₁ floodRun sameCall_of_check (by decide +kernel)
  obtain ⟨line, hline, hall, _⟩ := flood_retry_exact (rfl : ({} : Config).floodRetries = (2 : Nat))
    (.init : Sys.Reach (step {}) anyStep (started {} []) _) hstarts hs₁ rfl
  obtain ⟨xs, hsent, hexact, _⟩ := hall s h
  have htext : line = ascii "version" :=
    Except.ok.inj (hline.symm.trans hrender)
  rw [htext] at hexact
  refine ⟨s₁, s, hs₁, hs, xs, hsent, ?_, hexact⟩
  have hlen := Sys.eq_of_run_map (f := fun s : Conn => (s.session.sentBy (.task 0)).length) hs
    (b := 2) (by decide +kernel)
  rw [hsent] at hlen
  exact hlen

end Conn
end Atsq
