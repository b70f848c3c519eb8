import Atsq.Connection.InStep
import Atsq.Connection.Output

/-!
# Whose answer is it?

* `Attributed v`        a call returns the answer to its own line;
* `Attribution cfg s`   besides, at most one line on the wire is unanswered, and an answer that
                        comes too late reaches nobody;
* `SingleLines s a`     a line that is handed over is a single one;
* `LeaveSafe s a`       nobody leaves an unanswered line behind on an open connection.

Main results: `response_attribution`, for the runs of single lines in which nobody is cancelled from
outside, and `two_lines_shift`, a run with a line that is two.
-/

namespace Atsq
open Py

namespace Session

/-! ## nobody is cancelled from outside -/

/-- whoever is cancelled is so by the end of the connection -/
def Quiet (v : Session) : Prop := ∀ c, (v.execs c).cancelReq = true → v.closed = true

theorem Quiet.setExec {v : Session} (h : Quiet v) (c : Caller) {e : Exec}
    (he : e.cancelReq = true → v.closed = true) : Quiet (v.setExec c e) := by
  intro t ht
  by_cases hc : t = c
  · rw [hc, setExec_self] at ht
    exact he ht
  · rw [setExec_of_ne _ _ hc] at ht
    exact h t ht

theorem Quiet.settle {v : Session} (h : Quiet v) (f : Future) : Quiet (v.settle f) := by
  rcases v.settle_cases with ⟨c, _, _, hset⟩ | ⟨_, hset⟩
  · rw [hset]
    exact h.setExec c (h c)
  · rw [hset]
    exact h

theorem Quiet.recv {v : Session} (h : Quiet v) (line : Bytes) : Quiet (v.recv line) := by
  unfold Session.recv
  split
  · split
    · refine Quiet.settle ?_ _
      exact h
    · refine Quiet.settle (fun _ _ => ?_) _
      rfl
  · split <;> exact h

theorem Move.quiet {P : Policy} (hP : ∀ v c, P.cancel v c → v.closed = true) {v v' : Session}
    (hm : Move P v v') (h : Quiet v) : Quiet v' := by
  cases hm with
  | start c e _ _ _ he _ => exact h.setExec c fun hq => by rw [he] at hq; cases hq
  | outside c e _ _ _ _ he _ => exact h.setExec c fun hq => h c (he.symm.trans hq)
  | handOver c =>
    intro t ht
    by_cases hc : t = c
    · rw [hc] at ht
      unfold Session.handOver at ht
      rw [setExec_self] at ht
      exact h c ht
    · have hexec : (v.handOver c).execs t = v.execs t := setExec_of_ne _ _ hc
      rw [hexec] at ht
      exact h t ht
  | await c => exact h.setExec c (h c)
  | close c => exact h.setExec c (h c)
  | cancel c hc => exact h.setExec c fun _ => hP v c hc
  | expire c => exact h.setExec c fun hq => h c ((Exec.expire_cancelReq _).symm.trans hq)
  | expireClose c => exact h.setExec c fun hq => h c ((Exec.expire_cancelReq _).symm.trans hq)
  | complete c => exact Quiet.setExec (v := v.leave) h c (h c)
  | leave c => exact Quiet.setExec (v := v.leave) h c (h c)
  | recv line => exact h.recv line
  | shutdown => exact fun _ _ => (sameWire_shutdown v).2
  | lose => exact h

/-! ## what a call returns -/

/-- `a` is the answer to a line of the caller's last hand-over: the one with the same number, the
lines being counted on the wire -/
def OwnAnswer (v : Session) (c : Caller) (a : Answer) : Prop :=
  ∃ (x : Sent) (line : Bytes) (k : Nat), v.lastSent c = some x ∧ v.wire[k]? = some (x, line) ∧
    (demux v.received).answers[k]? = some a

/-- what a call returned is the answer to its own last line -/
structure Attributed (v : Session) : Prop where
  rows : ∀ c rows, (v.execs c).pc = .finished (.rows rows) →
    ∃ a error, v.OwnAnswer c a ∧ parseErrorLine a.terminator = .ok error ∧ error.ok = true ∧
      rows = parseDataBlock a.data
  queryError : ∀ c e, (v.execs c).pc = .finished (.queryError e) →
    ∃ a error, v.OwnAnswer c a ∧ parseErrorLine a.terminator = .ok error ∧ error.ok = false ∧
      e = .create error.id error.msg error.extra

theorem InStep.ownAnswer {v : Session} (h : InStep v) (hsingle : v.Single) {c : Caller} {x : Sent}
    (hx : v.lastSent c = some x) {data : List Bytes} {error : ErrorLine}
    (ha : Answered v.received x.mark data error) :
    ∃ line, v.OwnAnswer c ⟨data, line⟩ ∧ parseErrorLine line = .ok error := by
  have hmem := mem_of_lastSent hx
  obtain ⟨line, hline, hp⟩ := h.answer hmem ha
  refine ⟨line, ⟨x, strip CR x.line, x.index, hx, ?_, hline⟩, hp⟩
  rw [getElem?_wire hsingle, h.getElem? hmem, Option.map_some]

theorem InStep.attributed {v : Session} (h : InStep v) (hsingle : v.Single) (hi : Inv v) :
    Attributed v := by
  refine ⟨fun c rows hpc => ?_, fun c e hpc => ?_⟩
  · have hres := (hi.callers c).result
    rw [hpc] at hres
    obtain ⟨x, data, error, hx, ha, hok, hrows⟩ := hres
    obtain ⟨line, hown, hp⟩ := h.ownAnswer hsingle hx ha
    exact ⟨_, error, hown, hp, hok, hrows⟩
  · have hres := (hi.callers c).result
    rw [hpc] at hres
    obtain ⟨x, data, error, hx, ha, hok, he⟩ := hres
    obtain ⟨line, hown, hp⟩ := h.ownAnswer hsingle hx ha
    exact ⟨_, error, hown, hp, hok, he⟩

/-- a caller that can still take its answer -/
def InTime (e : Exec) : Prop :=
  (e.pc = .sending ∨ ∃ d, e.pc = .awaiting d) ∧ e.expired = false ∧ e.future = .pending

def TimedOut (e : Exec) : Prop :=
  ((∃ d, e.pc = .awaiting d) ∧ e.expired = true) ∨ (∃ p, e.pc = .closing p) ∨
    e.pc = .finished .queryTimeout

theorem InTime.not_timedOut {e : Exec} (h : InTime e) : ¬ TimedOut e := by
  obtain ⟨hpc, he, _⟩ := h
  rintro (⟨_, h'⟩ | ⟨p, h'⟩ | h')
  · rw [he] at h'
    cases h'
  · rcases hpc with hpc | ⟨d, hpc⟩ <;> rw [hpc] at h' <;> cases h'
  · rcases hpc with hpc | ⟨d, hpc⟩ <;> rw [hpc] at h' <;> cases h'

/-- the pending future belongs to the line whose answer is next -/
theorem InStep.next {v : Session} (h : InStep v) (hsingle : v.Single) (hi : Inv v) {c : Caller}
    (hp : v.pending = some c) (hf : (v.execs c).future = .pending) :
    InTime (v.execs c) ∧
      ∃ x line, v.wire[(demux v.received).answers.length]? = some (x, line) ∧ x.caller = c := by
  have hlock := hi.lock.symm.trans hp
  have hc := (hi.callers c).holder.mpr hlock
  have hres := (hi.callers c).result
  obtain ⟨x, h1, h2, h3⟩ := (hi.callers c).own hlock
  unfold FutureOk at h3
  rw [hf] at h3
  obtain ⟨hopen, hexpired, hun⟩ := h3
  refine ⟨⟨?_, hexpired, hf⟩, x, strip CR x.line, ?_, h2⟩
  · cases hpc : (v.execs c).pc with
    | sending => exact Or.inl rfl
    | awaiting d => exact Or.inr ⟨d, rfl⟩
    | closing p =>
      rw [hpc] at hres
      exact absurd (hopen.symm.trans hres) (by decide)
    | _ => rw [hpc] at hc; cases hc
  · have hindex := h.index_getLast h1
    rw [hun.answers, (h.between x (List.mem_of_getLast? h1)).1]
    rw [List.getLast?_eq_getElem?, ← hindex] at h1
    rw [getElem?_wire hsingle]
    exact congrArg (Option.map _) h1

end Session

namespace Conn
open Session

def SingleLines (s : Conn) (a : Action) : Prop :=
  ∀ c drain, a = .acquire c drain → s.closed = false → s.transport.closed = false →
    LF ∉ (s.execs c).line

/-- nobody leaves `_exec_line` without an answer between its line and a terminator while the
connection is open -/
def LeaveSafe (s : Conn) (a : Action) : Prop :=
  ∀ v c, LeavesEarly s a v c → v.closed = true ∨ v.LastHeard

structure PairSafe (s : Conn) (a : Action) : Prop where
  single : SingleLines s a
  leave : LeaveSafe s a

/-- the peer answers the lines it gets, in order -/
def Answers (s : Conn) (a : Action) : Prop := ∀ line, a = .recv line → s.session.Served line

/-- no task is cancelled from outside while it is inside `exec` -/
def Uncancelled (a : Action) : Prop := ∀ n, a ≠ .cancel n

theorem allowed_turn {s : Conn} {a : Action} (recv : Session → Bytes → Prop)
    (cancel : Session → Caller → Prop) (hs : PairSafe s a)
    (hr : ∀ line, a = .recv line → recv s.session line)
    (hc : ∀ n, a = .cancel n → cancel s.session (.task n))
    (hk : ∀ v : Session, v.closed = true → cancel v .keepalive) :
    Allowed (turnPolicy recv cancel) s a where
  start _ _ _ _ _ _ := trivial
  acquire _ _ _ := trivial
  send := hs.single
  resume _ _ _ := trivial
  startKeepalive _ := trivial
  recv := hr
  leave := hs.leave
  cancel := hc
  cancelKeepalive := hk

/-! ## runs in which the lines take turns -/

structure Turns (s : Conn) : Prop extends Base s where
  single : s.session.Single
  inTurn : s.session.InTurn
  left : s.session.Left

theorem turns_started (cfg : Config) (greeting : List Bytes) : Turns (started cfg greeting) where
  toBase := base_started cfg greeting
  single := fun _ => nofun
  inTurn := ⟨List.Pairwise.nil, nofun⟩
  left := fun _ => nofun

theorem step_turns {cfg : Config} {s s' : Conn} {a : Action} (h : Turns s) (ha : PairSafe s a)
    (hs : s.step cfg a = some s') : Turns s' := by
  have hallowed := allowed_turn (fun _ _ => True) (fun _ _ => True) ha
    (fun _ _ => trivial) (fun _ _ => trivial) (fun _ _ => trivial)
  have hm := step_moves h.session h.tasks hallowed hs
  exact ⟨step_base h.toBase hs,
    inv_moves_of (fun _ _ _ h hm => hm.single h) hm h.session h.single,
    inv_moves_of (fun _ _ hi h hm => hm.inTurn hi h) hm h.session h.inTurn,
    inv_moves_of (fun _ _ hi h hm => hm.left hi h) hm h.session h.left⟩

theorem step_inStep {cfg : Config} {s s' : Conn} {a : Action} (h : Turns s)
    (hi : s.session.InStep) (ha : PairSafe s a) (hr : Answers s a)
    (hs : s.step cfg a = some s') : s'.session.InStep := by
  have hallowed := allowed_turn Served (fun _ _ => True) ha hr
    (fun _ _ => trivial) (fun _ _ => trivial)
  have hm := step_moves h.session h.tasks hallowed hs
  exact (inv_moves_of (I := fun v => (v.Single ∧ v.InTurn) ∧ v.InStep)
    (fun _ _ hi h hm => ⟨⟨hm.single h.1.1, hm.inTurn hi h.1.2⟩, hm.inStep hi h.1.1 h.1.2 h.2⟩)
    hm h.session ⟨⟨h.single, h.inTurn⟩, hi⟩).2

theorem inStep_started (cfg : Config) (greeting : List Bytes) :
    (started cfg greeting).session.InStep :=
  ⟨rfl, fun _ h => absurd h List.not_mem_nil, Nat.le_refl _, fun h => absurd rfl h, Nat.zero_le _⟩

theorem reach_turns {cfg : Config} {greeting : List Bytes} {s : Conn}
    (h : Sys.Reach (step cfg) PairSafe (started cfg greeting) s) : Turns s :=
  h.inv (turns_started cfg greeting) fun _ _ _ ht ha hs => step_turns ht ha hs

theorem reach_inStep {cfg : Config} {greeting : List Bytes} {s : Conn}
    (h : Sys.Reach (step cfg) (fun s a => PairSafe s a ∧ Answers s a) (started cfg greeting) s) :
    Turns s ∧ s.session.InStep :=
  h.inv (I := fun s => Turns s ∧ s.session.InStep)
    ⟨turns_started cfg greeting, inStep_started cfg greeting⟩
    fun _ _ _ hi ha hs => ⟨step_turns hi.1 ha.1 hs, step_inStep hi.1 hi.2 ha.1 ha.2 hs⟩

/-- nobody is cancelled from outside, and no send raises an exception of its own -/
structure Undisturbed (s : Conn) (a : Action) : Prop where
  uncancelled : Uncancelled a
  sends : SendsReturn s a

/-- the only calls that leave early are on a closed connection -/
theorem leaveSafe_of_undisturbed {s : Conn} {a : Action} (hquiet : s.session.Quiet)
    (ha : Undisturbed s a) : LeaveSafe s a := by
  intro v c he
  cases he with
  | cancelled hq _ => exact Or.inl (hquiet c hq)
  | raises he => exact absurd he (ha.sends v c)

theorem pairSafe_of_undisturbed {cfg : Config} {C : Conn → Action → Prop}
    {greeting : List Bytes} {s : Conn}
    (h : Sys.Reach (step cfg) (fun s a => C s a ∧ SingleLines s a ∧ Undisturbed s a)
      (started cfg greeting) s) :
    Sys.Reach (step cfg) (fun s a => PairSafe s a ∧ C s a) (started cfg greeting) s := by
  have hrun : (Sys.Reach (step cfg) (fun s a => PairSafe s a ∧ C s a) (started cfg greeting) s ∧
      s.session.Quiet) ∧ Base s := by
    refine h.inv (I := fun s => (Sys.Reach (step cfg) (fun s a => PairSafe s a ∧ C s a)
      (started cfg greeting) s ∧ s.session.Quiet) ∧ Base s)
      ⟨⟨.init, fun _ => nofun⟩, base_started cfg greeting⟩ fun s a s' hi ha hs => ?_
    obtain ⟨⟨hreach, hquiet⟩, hb⟩ := hi
    obtain ⟨hC, hsingle, hundisturbed⟩ := ha
    have hsafe : PairSafe s a := ⟨hsingle, leaveSafe_of_undisturbed hquiet hundisturbed⟩
    have hallowed := allowed_turn (fun _ _ => True) (fun v _ => v.closed = true) hsafe
      (fun _ _ => trivial) (fun n hn => absurd hn (hundisturbed.uncancelled n)) (fun _ => id)
    have hm := step_moves hb.session hb.tasks hallowed hs
    exact ⟨⟨hreach.step ⟨hsafe, hC⟩ hs,
      inv_moves_of (fun _ _ _ h hm => hm.quiet (fun _ _ => id) h) hm hb.session hquiet⟩,
      step_base hb hs⟩
  exact hrun.1.1

/-! ## every answer to its own caller -/

structure Attribution (cfg : Config) (s : Conn) : Prop where
  /-- what the peer reads: the lines of the hand-overs, one after the other, and `quit` at most -/
  wire : SshTransport.linesOf s.transport.written
    = s.session.wire.map Prod.snd ++ List.replicate s.quits (ascii "quit")
  /-- the hand-overs are told apart by their number -/
  index : s.sent.map Sent.index = List.range s.sent.length
  order : (demux s.received).answers.length ≤ s.session.wire.length
  /-- at most one line has been sent and not yet answered -/
  one : s.session.wire.length ≤ (demux s.received).answers.length + 1
  results : s.session.Attributed
  /-- a terminator reaches the caller of the line it answers, if it comes in time, or nobody -/
  delivered : ∀ line s', Answers s (.recv line) → isErrorLine line = true →
    s.step cfg (.recv line) = some s' → s'.execs = s.execs ∨
      ∃ x text data error, s.session.wire[(demux s.received).answers.length]? = some (x, text) ∧
        InTime (s.execs x.caller) ∧ s'.execs = Function.update s.execs x.caller
          { s.execs x.caller with future := .result data error }
  /-- if the command has timed out, nobody -/
  late : ∀ line s' x text, Answers s (.recv line) → isErrorLine line = true →
    s.step cfg (.recv line) = some s' →
    s.session.wire[(demux s.received).answers.length]? = some (x, text) →
    TimedOut (s.execs x.caller) → s'.execs = s.execs

variable {cfg : Config} {greeting : List Bytes} {s s' : Conn}

theorem delivered (ht : Turns s) (hi : s.session.InStep) {line : Bytes}
    (ha : Answers s (.recv line)) (hl : isErrorLine line = true)
    (hs : s.step cfg (.recv line) = some s') :
    s'.execs = s.execs ∨
      ∃ x text data error, s.session.wire[(demux s.received).answers.length]? = some (x, text) ∧
        InTime (s.execs x.caller) ∧ s'.execs = Function.update s.execs x.caller
          { s.execs x.caller with future := .result data error } := by
  have hwf := (ha line rfl (Or.inl hl)).2
  have hrecv : s'.execs = (s.session.recv line).execs := by
    cases step_cases hs with
    | recv _ => exact congrArg Session.execs (session_recvLine line hwf)
    | feed hfa _ => cases hfa
  rw [hrecv]
  unfold Session.recv
  rw [if_pos hl]
  cases hp : parseErrorLine line with
  | error e =>
    have := hwf hl
    rw [wellFormed, hp] at this
    cases this
  | ok error =>
    rcases settle_cases { s.session with
        received := s.session.received ++ [line]
        dataBuffer := [] }
      with ⟨c, hpending, hf, hset⟩ | ⟨_, hset⟩
    · obtain ⟨hin, x, text, hx, rfl⟩ := hi.next ht.single ht.session hpending hf
      exact Or.inr ⟨x, text, s.dataBuffer, error, hx, hin, congrArg Session.execs (hset _)⟩
    · exact Or.inl (congrArg Session.execs (hset _))

theorem linesOf_written (hwritten : s.transport.written = terminated s.said) :
    SshTransport.linesOf s.transport.written
      = s.session.wire.map Prod.snd ++ List.replicate s.quits (ascii "quit") := by
  have hquit : SshTransport.linesOf (ascii "quit" ++ lineTerminator) = [ascii "quit"] := by
    decide +kernel
  rw [hwritten, terminated, SshTransport.linesOf_sent, said, List.flatMap_append, List.flatMap_map,
    map_snd_wire]
  refine congrArg₂ (· ++ ·) rfl ?_
  induction s.quits with
  | zero => rfl
  | succ k ih => rw [List.replicate_succ, List.flatMap_cons, hquit, ih]; rfl

/-- **Response attribution.**  In every run in which each line that is handed over is a single one,
no send raises an exception of its own, nobody is cancelled from outside and the peer answers the
lines it gets in order, every answer is its own caller's. -/
theorem response_attribution
    (h : Sys.Reach (step cfg) (fun s a => Answers s a ∧ SingleLines s a ∧ Undisturbed s a)
      (started cfg greeting) s) :
    Attribution cfg s := by
  obtain ⟨ht, hi⟩ := reach_inStep (pairSafe_of_undisturbed h)
  have hlength := length_wire ht.single
  refine ⟨linesOf_written (written_of_reach h), hi.index, ?_, ?_,
    hi.attributed ht.single ht.session, fun line s' ha hl hs => delivered ht hi ha hl hs, ?_⟩
  · rw [hlength]
    exact hi.order
  · rw [hlength]
    exact hi.ahead
  · intro line s' x text ha hl hs hx hlate
    rcases delivered ht hi ha hl hs with hsame | ⟨y, _, _, _, hy, hin, _⟩
    · exact hsame
    · cases Option.some.inj (hx.symm.trans hy)
      exact absurd hlate hin.not_timedOut

def servedCheck (s : Conn) : Action → Bool
  | .recv line =>
    !(isErrorLine line || isDataLine line) ||
      (decide ((demux s.received).answers.length < s.session.wire.length) &&
        (!isErrorLine line || wellFormed line))
  | _ => true

def singleCheck (s : Conn) : Action → Bool
  | .acquire c _ => !(s.execs c).line.contains LF
  | _ => true

def undisturbedCheck : Action → Bool
  | .cancel _ => false
  | .acquire _ drain => drain != .raises
  | .resume _ io => io.drain != .raises
  | _ => true

theorem answers_of_servedCheck (a : Action) (h : servedCheck s a = true) : Answers s a := by
  rintro line rfl hline
  unfold servedCheck at h
  rw [Bool.or_eq_true, Bool.not_eq_true', Bool.or_eq_false_iff, Bool.and_eq_true,
    decide_eq_true_iff, Bool.or_eq_true, Bool.not_eq_true'] at h
  rcases h with ⟨h1, h2⟩ | ⟨h1, h2⟩
  · rcases hline with hl | hl
    · rw [h1] at hl; cases hl
    · rw [h2] at hl; cases hl
  · refine ⟨h1, fun hl => h2.resolve_left ?_⟩
    rw [hl]
    decide

theorem singleLines_of_check {s : Conn} (a : Action) (h : singleCheck s a = true) :
    SingleLines s a := by
  rintro c drain rfl _ _ hLF
  have hno : (!(s.execs c).line.contains LF) = true := h
  rw [List.contains_iff_mem.mpr hLF] at hno
  cases hno

theorem undisturbed_of_check {s : Conn} (a : Action) (h : undisturbedCheck a = true) :
    Undisturbed s a := by
  refine ⟨?_, fun v c he => ?_⟩
  · rintro n rfl
    cases h
  · cases he with
    | later _ _ hd => exact bne_iff_ne.mp h hd
    | atOnce => cases h

def attributionRun : List Action :=
  [.exec 0 (lit "version") [] none [], .exec 1 (lit "whoami") [] none [],
    .acquire (.task 0) .done, .recv (ascii "version=3"), .recv (ascii "notifya"),
    .recv (ascii "error id=0 msg=ok"), .resume (.task 0) {}, .acquire (.task 1) .suspends,
    .resume (.task 1) {}, .tick 10, .expire (.task 1), .recv (ascii "error id=0 msg=ok"),
    .resume (.task 1) {}]

theorem response_attribution_late :
    ∃ s, Sys.run (step {}) (started {} []) attributionRun = some s ∧ Attribution {} s := by
  obtain ⟨s, hs, h⟩ := Sys.exists_reach_of_guard (step {})
    (fun s a => Answers s a ∧ SingleLines s a ∧ Undisturbed s a)
    (fun s a => servedCheck s a && (singleCheck s a && undisturbedCheck a))
    (started {} []) attributionRun
    (fun s a hcheck => by
      rw [Bool.and_eq_true, Bool.and_eq_true] at hcheck
      exact ⟨answers_of_servedCheck a hcheck.1, singleLines_of_check a hcheck.2.1,
        undisturbed_of_check a hcheck.2.2⟩)
    (by decide +kernel)
  exact ⟨s, hs, response_attribution h⟩

/-- a call whose command name has a line feed -/
def twoLinesRun : List Action :=
  [.exec 0 (lit "version\nwhoami") [] none [], .acquire (.task 0) .done]

/-- both lines are answered, the second one after the next call has sent its line -/
def twoAnswersRun : List Action :=
  [.recv (ascii "version=3"), .recv (ascii "error id=0 msg=ok"), .resume (.task 0) {},
    .exec 1 (lit "clientlist") [] none [], .acquire (.task 1) .done,
    .recv (ascii "virtualserver=1"), .recv (ascii "error id=0 msg=ok"), .resume (.task 1) {}]

/-- **A line that is two shifts the answers**: two lines are unanswered at once, and the next call
returns the answer to the second one. -/
theorem two_lines_shift :
    ∃ s s', Sys.run (step {}) (started {} []) twoLinesRun = some s ∧
      Sys.run (step {}) s twoAnswersRun = some s' ∧
      Sys.Reach (step {}) (fun s a => Answers s a ∧ Undisturbed s a) (started {} []) s' ∧
      s'.closed = false ∧
      SshTransport.linesOf s'.transport.written
        = [ascii "version", ascii "whoami", ascii "clientlist"] ∧
      s'.returned (.task 1) = some (parseDataBlock [ascii "virtualserver=1"]) ∧
      ¬ Attribution {} s ∧ ¬ Attribution {} s' := by
  obtain ⟨s', hrun, h⟩ := Sys.exists_reach_of_guard (step {})
    (fun s a => Answers s a ∧ Undisturbed s a) (fun s a => servedCheck s a && undisturbedCheck a)
    (started {} []) (twoLinesRun ++ twoAnswersRun)
    (fun s a hcheck => by
      rw [Bool.and_eq_true] at hcheck
      exact ⟨answers_of_servedCheck a hcheck.1, undisturbed_of_check a hcheck.2⟩)
    (by decide +kernel)
  have hsplit := hrun
  rw [Sys.run_append, Option.bind_eq_some_iff] at hsplit
  obtain ⟨s, hs, hs'⟩ := hsplit
  have hreturned : s'.returned (.task 1) = some (parseDataBlock [ascii "virtualserver=1"]) :=
    Sys.eq_of_run_map (f := fun s : Conn => s.returned (.task 1)) hrun (by decide +kernel)
  have hcallers : s'.session.wire.map (fun p => p.1.caller) = [.task 0, .task 0, .task 1] :=
    Sys.eq_of_run_map (f := fun s : Conn => s.session.wire.map fun p => p.1.caller) hrun
      (by decide +kernel)
  have hcount : (demux s'.received).answers.length = 2 :=
    Sys.eq_of_run_map (f := fun s : Conn => (demux s.received).answers.length) hrun
      (by decide +kernel)
  have htwo : (s.session.wire.length, (demux s.received).answers.length) = (2, 0) :=
    Sys.eq_of_run_map (f := fun s : Conn => (s.session.wire.length,
      (demux s.received).answers.length)) hs (by decide +kernel)
  rw [Prod.mk.injEq] at htwo
  refine ⟨s, s', hs, hs', h,
    Sys.eq_of_run_map (f := fun s : Conn => s.closed) hrun (by decide +kernel),
    Sys.eq_of_run_map (f := fun s : Conn => SshTransport.linesOf s.transport.written) hrun
      (by decide +kernel), hreturned, fun hatt => ?_, fun hatt => ?_⟩
  · -- two lines are unanswered
    have hone := hatt.one
    rw [htwo.1, htwo.2] at hone
    exact absurd hone (by decide)
  · -- the line of the second caller is the third one, and two answers have come
    obtain ⟨a, _, ⟨x, line, k, hx, hk, ha⟩, _⟩ := hatt.results.rows _ _ (pc_of_returned hreturned)
    have hk2 : k < 2 := hcount ▸ (List.getElem?_eq_some_iff.mp ha).1
    have hcaller : x.caller = .task 1 := beq_iff_eq.mp (List.mem_filter.mp
      (List.mem_of_getLast? hx)).2
    have hplace : (s'.session.wire.map fun p => p.1.caller)[k]? = some (.task 1) := by
      rw [List.getElem?_map, hk, Option.map_some, hcaller]
    rw [hcallers] at hplace
    interval_cases k <;> cases hplace

end Conn
end Atsq
