import Atsq.Connection.Attempts
import Atsq.Lib.Trace

/-!
# What a connection writes

The bytes handed to the transport are the command lines in the order in which they were sent, and
one `quit` at most after them; and every line was asked for by a call of its caller.

* `out`          what was written, and the history of it;
* `Output s s'`  a step writes nothing, or one command line, or closes the connection with a `quit`;
* `said`         the lines written so far;
* `Asked`        a line was rendered by a call in the run.

Main result: `output_exact`.
-/

namespace Atsq
open Py

/-- the bytes handed to the transport, and the history of them -/
structure Out where
  written : Bytes
  sent : List Sent
  quits : Nat

namespace Conn

def out (s : Conn) : Out := ⟨s.transport.written, s.sent, s.quits⟩

/-- the connection is closed by this, and `quit` written -/
structure Quits (s s' : Conn) : Prop where
  opened : s.closed = false
  closed : s'.closed = true
  out : s'.out = { s.out with
    written := s.out.written ++ (ascii "quit" ++ lineTerminator), quits := s.out.quits + 1 }

inductive Output (s s' : Conn) : Prop where
  | mute : s'.out = s.out → Output s s'
  | line (x : Sent) : s.closed = false →
      s'.out = { s.out with
        written := s.out.written ++ (x.line ++ lineTerminator), sent := s.out.sent ++ [x] } →
      Output s s'
  | quit : Quits s s' → Output s s'

/-! ## the methods -/

section
variable (cfg : Config) (s : Conn) (c : Caller)

theorem out_setExec (e : Exec) : (s.setExec c e).out = s.out := rfl
theorem out_finish (o : Outcome) : (s.finish c o).out = s.out := out_setExec s c _

theorem out_settle (f : Future) : (s.settle f).out = s.out := by
  unfold settle
  split
  · split
    · exact out_setExec s _ _
    · exact rfl
  · exact rfl

theorem out_cancelKeepalive : s.cancelKeepalive.out = s.out := by
  unfold cancelKeepalive
  split
  · exact rfl
  · exact rfl
  · exact out_setExec s _ _

theorem out_shutdown : s.shutdown.out = s.out := by
  unfold shutdown
  split
  · exact rfl
  · exact (out_cancelKeepalive _).trans (out_settle s .exception)

theorem out_startAttempt (k : Nat) : (s.startAttempt cfg c k).out = s.out := by
  unfold startAttempt
  split
  · exact out_setExec s c _
  · exact out_finish s c _

theorem out_startExec (line : Except RenderError Bytes) : (s.startExec cfg c line).out = s.out := by
  cases line with
  | error e => exact out_setExec s c _
  | ok line => exact out_startAttempt cfg (s.setExec c _) c 0

theorem out_awaitFuture : (s.awaitFuture cfg c).out = s.out := by
  unfold awaitFuture
  split
  · exact out_setExec s c _
  · rw [complete_eq]
    exact rfl
  · exact out_finish s.leave c _
  · exact out_finish s.leave c _

theorem out_sendDone (drain : Drain) : (s.sendDone cfg c drain).out = s.out := by
  cases drain with
  | suspends => exact rfl
  | done => exact out_awaitFuture cfg s.touch c
  | fails => exact out_finish (s.sendFailed.leave) c _
  | raises => exact out_finish s.leave c _

theorem out_closeTransport (io : Io) : (s.closeTransport io).1.out = s.out := by
  unfold closeTransport SshTransport.close
  split
  · exact rfl
  · exact rfl

theorem out_beginClose (current : Option Caller) : (s.beginClose current).out = s.out := by
  unfold beginClose
  split
  · exact out_shutdown s
  · exact (out_cancelKeepalive _).trans (out_shutdown s)

theorem out_afterClose (r : CloseResult) : (s.afterClose c r).out = s.out := by
  cases r with
  | suspended pc => exact out_setExec s c _
  | returned => exact out_finish (leave { s with closeReturned := true }) c _
  | cancelled => exact out_finish s.leave c _

theorem out_closerAfter (n : Nat) (r : CloseResult) : (s.closerAfter n r).out = s.out := by
  cases r <;> exact rfl

theorem out_recvLine (line : Bytes) : (s.recvLine line).out = s.out := by
  unfold recvLine
  simp only []
  split
  · exact rfl
  · split
    · exact rfl
    · split
      · split
        · exact out_settle { s with received := s.received ++ [line], dataBuffer := [] } _
        · exact out_shutdown { s with received := s.received ++ [line], dataBuffer := [] }
      · exact rfl

theorem out_keepaliveLoop : (s.keepaliveLoop cfg).out = s.out := by
  unfold keepaliveLoop
  split
  · exact rfl
  · simp only []
    split
    · exact rfl
    · exact out_startExec cfg { s with keepaliveTask := .executing } .keepalive _

end

section
variable {cfg : Config} {s s' : Conn} {c : Caller}

theorem sendLine_written {t t' : SshTransport} {data : Bytes} (h : t.sendLine data = some t') :
    t'.written = t.written ++ (data ++ lineTerminator) := by
  unfold SshTransport.sendLine at h
  split at h <;> cases h
  rfl

theorem out_resumeClose {q e : Bool} {io : Io} {pc : ClosePc} {r : Conn × CloseResult}
    (hr : s.resumeClose q e io pc = some r) : r.1.out = s.out := by
  cases pc with
  | quitting d =>
    simp only [resumeClose] at hr
    split at hr
    · cases hr
      exact rfl
    · split at hr
      · cases hr
        exact out_closeTransport s io
      · split at hr <;> cases hr
        · exact out_closeTransport s io
        · exact out_closeTransport s io
        · exact out_closeTransport s.sendFailed io
  | releasing =>
    simp only [resumeClose] at hr
    split at hr <;> cases hr <;> exact rfl

theorem Quits.mute {r r' : Conn} (h : Quits s r) (hm : r'.out = r.out)
    (hc : r'.closed = r.closed) : Quits s r' :=
  ⟨h.opened, hc.trans h.closed, hm.trans h.out⟩

theorem output_close (s : Conn) (current : Option Caller) (io : Io) :
    (s.close current io).1.out = s.out ∨ Quits s (s.close current io).1 := by
  cases hc : s.closed with
  | true =>
    rw [close_of_closed s current io hc]
    exact Or.inl rfl
  | false =>
    have hbegin := out_beginClose s current
    have hclosed := beginClose_closed s current
    rw [close_of_open s current io hc]
    generalize s.beginClose current = b at hbegin hclosed ⊢
    split
    · exact Or.inl ((out_closeTransport b io).trans hbegin)
    · unfold quit
      split
      · exact Or.inl ((out_closeTransport b io).trans hbegin)
      · rename_i t ht
        have hquit : Quits s { b with transport := t, quits := b.quits + 1 } :=
          ⟨hc, hclosed, by
            rw [← hbegin]
            unfold out
            simp only [sendLine_written ht]⟩
        have htransport : ∀ r : Conn, (r.closeTransport io).1.closed = r.closed := fun r =>
          (calm_closeTransport r io).closed
        right
        simp only []
        split
        · exact hquit
        · exact hquit.mute (out_closeTransport _ io) (htransport _)
        · exact hquit.mute (out_closeTransport _ io) (htransport _)
        · exact hquit.mute (out_closeTransport (sendFailed _) io) (htransport _)

theorem output_afterClose {r r' : Conn} (h : r.out = s.out ∨ Quits s r) (hm : r'.out = r.out)
    (hc : r'.closed = r.closed) : Output s r' := by
  rcases h with h | h
  · exact .mute (hm.trans h)
  · exact .quit (h.mute hm hc)

/-- **A step writes a command line, a `quit`, or nothing.** -/
theorem step_output {a : Action} (hs : s.step cfg a = some s') : Output s s' := by
  cases step_cases hs with
  | exec _ => exact .mute (out_startExec cfg s _ _)
  | @acquire c drain _ _ _ =>
    unfold execLine
    split
    · exact .mute (out_finish s c _)
    · rename_i hopen
      split
      · exact .mute (out_finish s c _)
      · rename_i t ht
        have hmute := out_sendDone cfg (s.handOver c t) c drain
        let x : Sent :=
          { caller := c, line := (s.execs c).line, mark := s.received.length,
            index := s.sent.length }
        refine .line x (Bool.eq_false_iff.mpr hopen) (hmute.trans ?_)
        show (⟨t.written, s.sent ++ [x], s.quits⟩ : Out) = _
        rw [sendLine_written ht]
        rfl
  | @resume c io _ hresumed =>
    cases hresumed with
    | cancelLocking _ => exact .mute (out_finish s c _)
    | cancelSleeping _ => exact .mute (out_finish s c _)
    | retry _ => exact .mute (out_startAttempt cfg s c _)
    | cancelSent _ _ => exact .mute (out_finish s.leave c _)
    | sendDone _ _ => exact .mute (out_sendDone cfg s c _)
    | timeout _ _ _ =>
      exact output_afterClose (output_close s (some c) io) (out_afterClose _ c _)
        (calm_afterClose _ c _).closed
    | response _ _ _ _ => exact .mute (out_awaitFuture cfg s c)
    | @closing pc r _ hr => exact .mute ((out_afterClose r.1 c r.2).trans (out_resumeClose hr))
  | expire _ => exact .mute (out_setExec s _ _)
  | expireQuit _ => exact .mute (out_setExec s _ _)
  | cancel => exact .mute (out_setExec s _ _)
  | feed _ _ => exact .mute rfl
  | @close n io _ =>
    have hclose := output_close (s.setCloser n {}) none io
    refine output_afterClose (s := s) (hclose.imp ?_ ?_) (out_closerAfter _ n _)
      (congrArg Feed.closed (closerAfter_frame _ n _).1)
    · exact id
    · exact fun h => ⟨h.opened, h.closed, h.out⟩
  | @resumeClose n io pc r _ hr =>
    exact .mute ((out_closerAfter r.1 n r.2).trans (out_resumeClose hr))
  | expireClose => exact .mute rfl
  | cancelClose => exact .mute rfl
  | keepalive hk =>
    cases hk with
    | ended _ => exact .mute rfl
    | loop _ => exact .mute (out_keepaliveLoop cfg s)
  | @recv line _ => exact .mute (out_recvLine s line)
  | eof _ => exact .mute (out_shutdown s.sendFailed)
  | readError _ => exact .mute (out_shutdown s)
  | recvStop _ => exact .mute rfl
  | tick _ => exact .mute rfl

end

/-! ## the lines written -/

def terminated (lines : List Bytes) : Bytes := lines.flatMap fun l => l ++ lineTerminator

def said (s : Conn) : List Bytes := s.sent.map Sent.line ++ List.replicate s.quits (ascii "quit")

theorem terminated_concat (lines : List Bytes) (l : Bytes) :
    terminated (lines ++ [l]) = terminated lines ++ (l ++ lineTerminator) := by
  unfold terminated
  rw [List.flatMap_append, List.flatMap_singleton]

section
variable {cfg : Config} {greeting : List Bytes} {s s' : Conn} {c : Caller}

theorem step_written {a : Action} (hb : Base s) (hs : s.step cfg a = some s')
    (h : s.transport.written = terminated s.said) :
    s'.transport.written = terminated s'.said := by
  cases step_output hs with
  | mute hout =>
    have hsaid : s'.said = s.said :=
      congrArg (fun o : Out => o.sent.map Sent.line ++ List.replicate o.quits (ascii "quit")) hout
    rw [hsaid, ← h]
    exact congrArg Out.written hout
  | line x hopen hout =>
    have hsent : s'.sent = s.sent ++ [x] := congrArg Out.sent hout
    have hquits : s'.quits = 0 := (congrArg Out.quits hout).trans (hb.quitsOpen hopen)
    have hsaid : s'.said = s.said ++ [x.line] := by
      unfold said
      rw [hsent, hquits, hb.quitsOpen hopen, List.map_append]
      simp
    rw [hsaid, terminated_concat, ← h]
    exact congrArg Out.written hout
  | quit hquit =>
    have hsent : s'.sent = s.sent := congrArg Out.sent hquit.out
    have hquits : s'.quits = s.quits + 1 := congrArg Out.quits hquit.out
    have hsaid : s'.said = s.said ++ [ascii "quit"] := by
      unfold said
      rw [hsent, hquits, List.replicate_succ', List.append_assoc]
    rw [hsaid, terminated_concat, ← h]
    exact congrArg Out.written hquit.out

/-! ## who asked for them -/

/-- a call of this caller rendered the line -/
def Asked (as : List Action) (c : Caller) (line : Bytes) : Prop :=
  ∃ a ∈ as, Starts c a ∧ a.text = .ok line

/-- the lines of one caller: those it sent, and the one it is about to send -/
structure AskedAll (as : List Action) (s : Conn) (c : Caller) : Prop where
  sent : ∀ x ∈ s.session.sentBy c, Asked as c x.line
  own : (s.execs c).pc.free = false → Asked as c (s.execs c).line

theorem Asked.append {as : List Action} {line : Bytes} (h : Asked as c line) (bs : List Action) :
    Asked (as ++ bs) c line := by
  obtain ⟨a, ha, h⟩ := h
  exact ⟨a, List.mem_append_left bs ha, h⟩

/-- who starts a call writes nothing yet; the keepalive task may not start one after all -/
theorem start_cases {a : Action} (hb : Base s) (hs : s.step cfg a = some s') (ha : Starts c a) :
    (∃ r text, r.out = s.out ∧ s' = startExec cfg r c text) ∨
      (s'.out = s.out ∧ (s'.execs c).pc.free = true) := by
  cases c with
  | task n =>
    cases a with
    | exec m cmd options blocks params =>
      cases ha
      cases step_cases hs with
      | exec _ => exact Or.inl ⟨s, _, rfl, rfl⟩
      | feed hfa _ => cases hfa
    | _ => cases ha
  | keepalive =>
    cases a with
    | keepalive =>
      cases step_cases hs with
      | keepalive hk =>
        obtain ⟨hidle, hround⟩ := hk.round
        have hfree := hidle.free hb.tasks.keepalive
        rcases hround with rfl | hround
        · exact Or.inr ⟨rfl, hfree⟩
        · cases hround with
          | ended _ => exact Or.inr ⟨rfl, hfree⟩
          | sleeps _ _ => exact Or.inr ⟨rfl, hfree⟩
          | issues _ _ => exact Or.inl ⟨{ s with keepaliveTask := .executing }, _, rfl, rfl⟩
      | feed hfa _ => cases hfa
    | _ => cases ha

theorem sent_of_start {a : Action} (hb : Base s) (hs : s.step cfg a = some s') (ha : Starts c a) :
    s'.sent = s.sent := by
  rcases start_cases hb hs ha with ⟨r, text, hr, rfl⟩ | ⟨hout, _⟩
  · exact congrArg Out.sent ((out_startExec cfg r c text).trans hr)
  · exact congrArg Out.sent hout

/-- a call that was started waits for the lock, or it has ended -/
theorem locking_of_start {a : Action} (hb : Base s) (hs : s.step cfg a = some s')
    (ha : Starts c a) (hbusy : (s'.execs c).pc.free = false) : (s'.execs c).pc = .locking := by
  rcases start_cases hb hs ha with ⟨r, text, _, rfl⟩ | ⟨_, hfree⟩
  · refine (startExec_pc cfg r c text).resolve_right ?_
    rintro ⟨o, ho⟩
    rw [ho] at hbusy
    cases hbusy
  · rw [hfree] at hbusy
    cases hbusy

theorem step_asked {as : List Action} {a : Action} (hb : Base s) (hs : s.step cfg a = some s')
    (h : AskedAll as s c) : AskedAll (as ++ [a]) s' c := by
  by_cases ha : Starts c a
  · refine ⟨fun x hx => (h.sent x ?_).append _, fun hbusy => ?_⟩
    · unfold Session.sentBy at hx ⊢
      rwa [show s'.session.sent = s.session.sent from sent_of_start hb hs ha] at hx
    · have hcall := start_call hb ha hs (locking_of_start hb hs ha hbusy)
      exact ⟨a, List.mem_append_right _ List.mem_cons_self, ha, hcall.2⟩
  · -- what the caller sent and what it will send stay as they were
    have steady : s'.session.sentBy c = s.session.sentBy c →
        (s'.execs c).line = (s.execs c).line →
        (s.execs c).pc.free = false ∨ (s'.execs c).pc = (s.execs c).pc →
        AskedAll (as ++ [a]) s' c := by
      intro hsent hline hpc
      refine ⟨fun x hx => (h.sent x (hsent ▸ hx)).append _, fun hbusy => ?_⟩
      rw [hline]
      refine (h.own (hpc.elim id fun he => ?_)).append _
      rw [← he]
      exact hbusy
    have critical : (s.execs c).pc.critical = true → (s.execs c).pc.free = false := by
      intro hc
      by_contra hf
      rw [ExecPc.critical_of_free (Bool.not_eq_false _ ▸ hf)] at hc
      cases hc
    cases step_call hb hs c ha with
    | still hsteady hpc => exact steady hsteady.sent hsteady.line (Or.inr hpc)
    | await hsteady hpc _ => exact steady hsteady.sent hsteady.line (Or.inl (by rw [hpc]; rfl))
    | close _ hsteady hc _ _ => exact steady hsteady.sent hsteady.line (Or.inl (critical hc))
    | answer _ _ hsteady hc _ _ => exact steady hsteady.sent hsteady.line (Or.inl (critical hc))
    | stop _ hsteady hbusy _ _ _ => exact steady hsteady.sent hsteady.line (Or.inl hbusy)
    | retry wake hpc _ he =>
      subst he
      refine steady ?_ ?_ (Or.inl (by rw [hpc]; rfl))
      · unfold startAttempt
        split <;> rfl
      · unfold startAttempt finish
        split <;> rw [setExec_self]
    | handOver x hpc _ _ hcaller hline _ hsent _ hown _ _ =>
      have hasked : Asked as c (s.execs c).line := h.own (by rw [hpc]; rfl)
      refine ⟨fun y hy => ?_, fun _ => ?_⟩
      · unfold Session.sentBy at hy
        rw [show s'.session.sent = s.session.sent ++ [x] from hsent, List.filter_append,
          List.mem_append] at hy
        rcases hy with hy | hy
        · exact (h.sent y hy).append _
        · rw [List.mem_singleton.mp (List.mem_filter.mp hy).1, hline]
          exact hasked.append _
      · rw [hown]
        exact hasked.append _

end

/-! ## every run -/

theorem written_of_reach {cfg : Config} {C : Conn → Action → Prop} {greeting : List Bytes}
    {s : Conn} (h : Sys.Reach (step cfg) C (started cfg greeting) s) :
    s.transport.written = terminated s.said := by
  refine (h.inv (I := fun s => Base s ∧ s.transport.written = terminated s.said)
    ⟨base_started cfg greeting, rfl⟩ ?_).2
  rintro s a s' ⟨hb, hw⟩ _ hs
  exact ⟨step_base hb hs, step_written hb hs hw⟩

theorem asked_of_trace {cfg : Config} {C : Conn → Action → Prop} {greeting : List Bytes} {s : Conn}
    {as : List Action} (h : Sys.Trace (step cfg) C (started cfg greeting) as s) (c : Caller) :
    AskedAll as s c := by
  induction h with
  | init => exact ⟨fun _ hx => absurd hx List.not_mem_nil, nofun⟩
  | step htrace _ hs ih => exact step_asked (reach_base htrace.reach) hs ih

/-- the peer reads the lines back where no line needs more than one -/
theorem linesOf_terminated {s : Conn} (hwritten : s.transport.written = terminated s.said)
    (hplain : ∀ x ∈ s.sent, SshTransport.PlainLine x.line) :
    SshTransport.linesOf s.transport.written = s.said := by
  have hall : ∀ l ∈ s.said, SshTransport.PlainLine l := by
    intro l hl
    rcases List.mem_append.mp hl with hl | hl
    · obtain ⟨x, hx, rfl⟩ := List.mem_map.mp hl
      exact hplain x hx
    · rw [List.eq_of_mem_replicate hl]
      exact ⟨by decide, by decide, by decide⟩
  rw [hwritten]
  exact SshTransport.linesOf_sent_plain s.said hall

/-- every line sent was asked for by its caller -/
theorem asked_of_mem {cfg : Config} {C : Conn → Action → Prop} {greeting : List Bytes} {s : Conn}
    {as : List Action} (h : Sys.Trace (step cfg) C (started cfg greeting) as s) {x : Sent}
    (hx : x ∈ s.sent) : Asked as x.caller x.line :=
  (asked_of_trace h x.caller).sent x (List.mem_filter.mpr ⟨hx, beq_self_eq_true x.caller⟩)

/-- **Nothing is written but what was asked for.**  The bytes on the wire are the command lines in
the order in which they were sent, each asked for by a call of its caller, and one `quit` at most,
as the last line; and the peer reads exactly these lines where no line needs more than one. -/
theorem output_exact {cfg : Config} {greeting : List Bytes} {s : Conn} {as : List Action}
    (h : Sys.Trace (step cfg) anyStep (started cfg greeting) as s) :
    s.transport.written = terminated s.said ∧ s.quits ≤ 1 ∧
    (∀ x ∈ s.sent, Asked as x.caller x.line) ∧
    ((∀ x ∈ s.sent, SshTransport.PlainLine x.line) →
      SshTransport.linesOf s.transport.written = s.said) := by
  have hwritten := written_of_reach h.reach
  exact ⟨hwritten, (reach_base h.reach).quits, fun x hx => asked_of_mem h hx,
    fun hplain => linesOf_terminated hwritten hplain⟩

def talkRun : List Action :=
  [.exec 0 (lit "use") [] none [(lit "sid", .scalar (.text (lit "1")))], .acquire (.task 0) .done,
    .recv (ascii "error id=0 msg=ok"), .resume (.task 0) {}, .exec 0 (lit "clientlist") [] none [],
    .acquire (.task 0) .done, .recv (ascii "error id=0 msg=ok"), .resume (.task 0) {}, .tick 240,
    .keepalive, .acquire .keepalive .done, .close 1 {}]

theorem output_exact_talk :
    ∃ s, Sys.run (step {}) (started {} []) talkRun = some s ∧
      s.transport.written = terminated s.said ∧ s.said = [ascii "use sid=1", ascii "clientlist",
        ascii "whoami", ascii "quit"] := by
  have hrun : (Sys.run (step {}) (started {} []) talkRun).isSome = true := by decide +kernel
  obtain ⟨s, hs⟩ := Option.isSome_iff_exists.mp hrun
  exact ⟨s, hs, (output_exact (Sys.trace_of_run (fun _ _ _ => trivial) hs)).1,
    Sys.eq_of_run_map (f := said) hs (by decide +kernel)⟩

end Conn
end Atsq
