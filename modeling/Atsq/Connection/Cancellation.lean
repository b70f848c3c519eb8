import Atsq.Connection.Attribution

/-!
# Cancelled callers

`Paired s` says that request and response are paired, as far as it can be said whatever the peer
sends, and that a cancelled call left only behind a terminator or on a closed connection.

Main results: `cancellation_in_step`, which says exactly which steps keep the pairing, and
`cancellation_shifts`, a run that breaks it.
-/

namespace Atsq
open Py

namespace Conn
open Session

variable {cfg : Config} {greeting : List Bytes} {s s' : Conn}

/-- request and response are paired, whatever the peer sends -/
structure Paired (s : Conn) : Prop where
  /-- a call that handed over its line and was cancelled, or whose send raised, left a terminator
  behind it, or a closed connection -/
  left : ∀ c x, (s.execs c).pc = .finished .cancelled ∨ (s.execs c).pc = .finished .sendError →
    (s.execs c).handed = true → s.session.lastSent c = some x →
    s.closed = true ∨ s.session.Heard x
  /-- no line is on the wire before the terminator of an earlier one -/
  turns : s.session.wire.Pairwise fun p q => s.session.Apart p.1 q.1
  /-- and what a call returns ends with the first terminator after its own line -/
  rows : ∀ c rows, (s.execs c).pc = .finished (.rows rows) →
    ∃ x data error, s.session.lastSent c = some x ∧ Answered s.received x.mark data error ∧
      error.ok = true ∧ rows = parseDataBlock data
  queryError : ∀ c e, (s.execs c).pc = .finished (.queryError e) →
    ∃ x data error, s.session.lastSent c = some x ∧ Answered s.received x.mark data error ∧
      error.ok = false ∧ e = .create error.id error.msg error.extra

theorem Turns.paired (h : Turns s) : Paired s := by
  refine ⟨fun c x hpc hh hx => h.left c hh ?_ x hx,
    pairwise_wire.mpr ⟨h.single, h.inTurn.turns⟩, fun c rows hpc => ?_, fun c e hpc => ?_⟩
  · show (s.execs c).pc.between = true
    rcases hpc with hpc | hpc <;> rw [hpc] <;> rfl
  · have hres := (h.session.callers c).result
    change ResultOk _ _ (s.execs c).pc at hres
    rw [hpc] at hres
    exact hres
  · have hres := (h.session.callers c).result
    change ResultOk _ _ (s.execs c).pc at hres
    rw [hpc] at hres
    exact hres

/-! ## what breaks the pairing -/

theorem execLine_of_open (cfg : Config) (c : Caller) (hopen : s.closed = false)
    (hup : s.transport.closed = false) (drain : Drain) : ∃ t, s.execLine cfg c drain = sendDone cfg (s.handOver c t) c drain ∧
      (s.handOver c t).session = s.session.handOver c := by
  obtain ⟨t, ht⟩ : ∃ t, s.transport.sendLine (s.execs c).line = some t := by
    unfold SshTransport.sendLine
    rw [hup]
    exact ⟨_, rfl⟩
  refine ⟨t, ?_, ?_⟩
  · unfold execLine
    rw [hopen, if_neg (by decide), ht]
  · have hlost : t.closed = s.transport.closed := by
      obtain ⟨h1, h2, _⟩ := sendLine_flags ht
      rw [h1, h2]
    show { (s.session.handOver c) with lost := t.closed } = s.session.handOver c
    rw [hlost]
    rfl

theorem singleLines_of_paired {a : Action} (hs : s.step cfg a = some s') (h : Paired s') :
    SingleLines s a := by
  rintro c drain rfl hopen hup
  obtain ⟨t, hline, hsession⟩ := execLine_of_open cfg c hopen hup drain
  cases step_cases hs with
  | feed hfa _ => cases hfa
  | acquire _ _ _ =>
    have hsent : (s.execLine cfg c drain).sent = (s.session.handOver c).sent := by
      rw [hline, ← hsession]
      exact congrArg Out.sent (out_sendDone cfg (s.handOver c t) c drain)
    have hsingle := (pairwise_wire.mp h.turns).1
    unfold Single at hsingle
    rw [show (s.execLine cfg c drain).session.sent = (s.session.handOver c).sent from hsent]
      at hsingle
    exact hsingle _ (List.mem_append_right _ (List.mem_singleton.mpr rfl))

theorem heard_of_left {r : Conn} (hi : r.session.Inv) {c : Caller} {o : Outcome}
    (hc : (r.execs c).pc.critical = true) (ho : o = .cancelled ∨ o = .sendError)
    (h : Paired (r.leave.finish c o)) : r.session.closed = true ∨ r.session.LastHeard := by
  have hlock := (hi.callers c).holder.mp hc
  obtain ⟨x, h1, h2, _⟩ := (hi.callers c).own hlock
  have hlast : r.session.lastSent c = some x := h2 ▸ lastSent_of_getLast? h1
  have hexec : (r.leave.finish c o).execs c = { r.execs c with pc := .finished o } :=
    setExec_self ..
  have hpc : ((r.leave.finish c o).execs c).pc = .finished o := congrArg Exec.pc hexec
  have hleft := h.left c x (ho.imp (fun e => hpc.trans (congrArg _ e))
    fun e => hpc.trans (congrArg _ e))
    ((congrArg Exec.handed hexec).trans ((hi.callers c).handed hlock)) hlast
  exact hleft.imp id fun hh => ⟨x, h1, hh⟩

theorem leaveSafe_of_paired (hb : Base s) {a : Action} (hs : s.step cfg a = some s')
    (h : Paired s') : LeaveSafe s a := by
  intro v c he
  cases he with
  | @cancelled c io hq hpc =>
    have hc : (s.execs c).pc.critical = true := by
      rcases hpc with hpc | ⟨d, hpc⟩ <;> rw [hpc] <;> rfl
    have hs' : s' = s.leave.finish c .cancelled := by
      replace hs : s.resume cfg c io = some s' := hs
      unfold resume at hs
      rcases hpc with hpc | ⟨d, hpc⟩
      all_goals
        simp only [hpc, hq, if_true] at hs
        exact (Option.some.inj hs).symm
    exact heard_of_left hb.session hc (Or.inl rfl) (hs' ▸ h)
  | raises he =>
    cases he with
    | @later c io hpc hq hd =>
      have hs' : s' = s.leave.finish c .sendError := by
        replace hs : s.resume cfg c io = some s' := hs
        unfold resume at hs
        simp only [hpc, hq, hd, Bool.false_eq_true, if_false, sendDone] at hs
        exact (Option.some.inj hs).symm
      exact heard_of_left hb.session (congrArg ExecPc.critical hpc) (Or.inr rfl) (hs' ▸ h)
    | @atOnce c hopen hup =>
      obtain ⟨t, hline, hsession⟩ := execLine_of_open cfg c hopen hup .raises
      cases step_cases hs with
      | feed hfa _ => cases hfa
      | acquire hpc hlock hq =>
        rw [hline] at h
        rw [← hsession]
        have hi : (s.handOver c t).session.Inv := by
          rw [hsession]
          exact hb.session.handOver c hopen hlock
        refine heard_of_left (r := s.handOver c t) hi ?_ (Or.inr rfl) h
        rw [exec_handOver]
        rfl

theorem pairSafe_of_paired (hb : Base s) {a : Action} (hs : s.step cfg a = some s')
    (h : Paired s') : PairSafe s a :=
  ⟨singleLines_of_paired hs h, leaveSafe_of_paired hb hs h⟩

/-- **Cancellation and the pairing.**  As long as each line that is handed over is a single one, and
no call leaves `_exec_line` cancelled, or with the exception of its send, between its line and a
terminator on an open connection, request and response are paired, and the first step that does
otherwise breaks the pairing.  If the peer answers in order, every answer is then its own
caller's. -/
theorem cancellation_in_step
    (h : Sys.Reach (step cfg) PairSafe (started cfg greeting) s) :
    Paired s ∧
    (∀ a s', s.step cfg a = some s' → (Paired s' ↔ PairSafe s a)) ∧
    (Sys.Reach (step cfg) (fun s a => PairSafe s a ∧ Answers s a) (started cfg greeting) s →
      s.session.Attributed ∧
        s.session.wire.length ≤ (demux s.received).answers.length + 1) := by
  have ht := reach_turns h
  refine ⟨ht.paired, fun a s' hs => ⟨pairSafe_of_paired ht.toBase hs, fun ha =>
    (step_turns ht ha hs).paired⟩, fun h' => ?_⟩
  obtain ⟨_, hi⟩ := reach_inStep h'
  refine ⟨hi.attributed ht.single ht.session, ?_⟩
  rw [length_wire ht.single]
  exact hi.ahead

/-- as a check: whoever runs on has a terminator behind the last line, or the connection closed, and
no drain raises -/
def heardCheck (s : Conn) : Action → Bool
  | .resume _ _ =>
    s.closed || s.sent.getLast?.any fun x => (s.received.drop x.mark).any isErrorLine
  | .acquire _ drain => drain != .raises
  | _ => true

theorem leaveSafe_of_heardCheck (a : Action) (h : heardCheck s a = true) : LeaveSafe s a := by
  have heard : ∀ c io, heardCheck s (.resume c io) = true →
      s.closed = true ∨ s.session.LastHeard := by
    intro c io h
    unfold heardCheck at h
    rw [Bool.or_eq_true] at h
    refine h.imp id fun h => ?_
    obtain ⟨x, hx, hheard⟩ := (Option.any_eq_true _ _).mp h
    obtain ⟨l, hl, he⟩ := List.any_eq_true.mp hheard
    exact ⟨x, hx, l, hl, he⟩
  intro v c he
  cases he with
  | cancelled _ _ => exact heard _ _ h
  | raises he =>
    cases he with
    | later _ _ _ => exact heard _ _ h
    | atOnce _ _ => cases h

theorem pairSafe_of_check (a : Action) (h : (singleCheck s a && heardCheck s a) = true) :
    PairSafe s a := by
  rw [Bool.and_eq_true] at h
  exact ⟨singleLines_of_check a h.1, leaveSafe_of_heardCheck a h.2⟩

/-- a cancellation that lands between the answer and the return of `send_line` -/
theorem cancellation_in_step_safe :
    ∃ s, Sys.run (step {}) (started {} [])
        [.exec 0 (lit "version") [] none [], .acquire (.task 0) .suspends,
          .recv (ascii "error id=0 msg=ok"), .cancel 0, .resume (.task 0) {}] = some s ∧
      Paired s := by
  obtain ⟨s, hs, h⟩ := Sys.exists_reach_of_guard (step {}) PairSafe
    (fun s a => singleCheck s a && heardCheck s a) (started {} [])
    [.exec 0 (lit "version") [] none [], .acquire (.task 0) .suspends,
      .recv (ascii "error id=0 msg=ok"), .cancel 0, .resume (.task 0) {}]
    (fun _ => pairSafe_of_check) (by decide +kernel)
  exact ⟨s, hs, (cancellation_in_step h).1⟩

/-- the first caller is cancelled while it awaits the response, the second one sends its line, and
then the only answer comes -/
def shiftedRun : List Action :=
  [.exec 0 (lit "version") [] none [], .acquire (.task 0) .done, .cancel 0,
    .resume (.task 0) {}, .exec 1 (lit "whoami") [] none [], .acquire (.task 1) .done,
    .recv (ascii "version=3"), .recv (ascii "error id=0 msg=ok"), .resume (.task 1) {}]

/-- **A cancelled call shifts the answers**: on an open connection the second caller returns the
answer to the line of the first. -/
theorem cancellation_shifts :
    ∃ s, Sys.run (step {}) (started {} []) shiftedRun = some s ∧
      Sys.Reach (step {}) Answers (started {} []) s ∧ s.closed = false ∧
      s.returned (.task 1) = some (parseDataBlock [ascii "version=3"]) ∧
      (demux s.received).answers = [⟨[ascii "version=3"], ascii "error id=0 msg=ok"⟩] ∧
      s.sent.map Sent.caller = [.task 0, .task 1] ∧ ¬ Paired s := by
  obtain ⟨s, hs, h⟩ := Sys.exists_reach_of_guard (step {}) Answers servedCheck (started {} [])
    shiftedRun (fun _ => answers_of_servedCheck) (by decide +kernel)
  have hmarks : s.sent.map Sent.mark = [0, 0] :=
    Sys.eq_of_run_map (f := fun s : Conn => s.sent.map Sent.mark) hs (by decide +kernel)
  refine ⟨s, hs, h, Sys.eq_of_run_map (f := fun s : Conn => s.closed) hs (by decide +kernel),
    Sys.eq_of_run_map (f := fun s : Conn => s.returned (.task 1)) hs (by decide +kernel),
    Sys.eq_of_run_map (f := fun s : Conn => (demux s.received).answers) hs (by decide +kernel),
    Sys.eq_of_run_map (f := fun s : Conn => s.sent.map Sent.caller) hs (by decide +kernel),
    fun hp => ?_⟩
  -- nothing was received between the two lines
  obtain ⟨x, rest, hsent, _, hrest⟩ := List.map_eq_cons_iff.mp hmarks
  obtain ⟨y, _, hrest, hy, _⟩ := List.map_eq_cons_iff.mp hrest
  have hturns := (pairwise_wire.mp hp.turns).2
  rw [show s.session.sent = s.sent from rfl, hsent, hrest] at hturns
  obtain ⟨l, hl, _⟩ := (List.pairwise_cons.mp hturns).1 y List.mem_cons_self
  rw [hy, List.take_zero, List.drop_nil] at hl
  cases hl

end Conn
end Atsq
