import Mathlib.Logic.Relation
import Atsq.Connection.State
import Atsq.Connection.Stream

/-!
# The command side of a connection as a machine of its own

What commands and answers are about: one lock, one pending slot, one data buffer, the line to the
peer, and the callers.  The rest of a connection is left out, and so is time.

* `Session`   the command side of a state; `Conn.session` in `Atsq.Connection.Refine` projects;
* `Move P`    what one task can do to it; the `Policy` `P` says who may call, go on and send, which
              lines may arrive, who may leave on a cancellation or on the exception of its send,
              and who may be cancelled;
* `Inv`       what every run keeps: the lock owns the slot, the future of the owner fits the lines
              received since its line was sent, and what a caller returned fits them too.

Main results: `Move.inv`, and `Move.free` for the callers that a move does not concern.
-/

namespace Atsq
open Py

structure Session where
  closed : Bool
  lost : Bool
  pending : Option Caller
  cmdLock : Option Caller
  dataBuffer : List Bytes
  execs : Caller → Exec
  sent : List Sent
  received : List Bytes

structure Policy where
  start : Caller → Prop
  go : Caller → Prop
  send : Session → Caller → Prop
  recv : Session → Bytes → Prop
  leave : Session → Caller → Prop
  cancel : Session → Caller → Prop

/-- no answer and no timeout -/
def ExecPc.plain : ExecPc → Bool
  | .idle | .locking | .sleeping _ => true
  | .finished (.rows _) | .finished (.queryError _) | .finished .queryTimeout => false
  | .finished _ => true
  | _ => false

theorem ExecPc.critical_of_free {pc : ExecPc} (h : pc.free = true) : pc.critical = false := by
  cases pc <;> first | rfl | cases h

theorem ExecPc.critical_of_plain {pc : ExecPc} (h : pc.plain = true) : pc.critical = false := by
  cases pc <;> first | rfl | cases h

/-- between two attempts, or ended by a cancellation or by the exception of its send -/
def ExecPc.between : ExecPc → Bool
  | .locking | .sleeping _ | .finished .cancelled | .finished .sendError => true
  | _ => false

theorem ExecPc.between_of {pc : ExecPc} (hc : pc.critical = false) (hf : pc.free = false) :
    pc.between = true := by
  cases pc with
  | idle => cases hf
  | finished o => cases hf
  | locking => rfl
  | sleeping wake => rfl
  | _ => cases hc

theorem ExecPc.between_of_critical {pc : ExecPc} (hc : pc.critical = true) :
    pc.between = false := by
  cases pc with
  | sending => rfl
  | awaiting d => rfl
  | closing p => rfl
  | _ => cases hc

/-- what the answer of `data` and `error` makes of a call -/
inductive Completes (data : List Bytes) (error : ErrorLine) : ExecPc → Prop where
  | rows : error.ok = true → Completes data error (.finished (.rows (parseDataBlock data)))
  | queryError : error.ok = false →
      Completes data error (.finished (.queryError (.create error.id error.msg error.extra)))
  | retry (wake : ℚ) : Completes data error (.sleeping wake)

namespace Session

def setExec (v : Session) (c : Caller) (e : Exec) : Session :=
  { v with execs := Function.update v.execs c e }

/-- the caller has the lock and its line is written -/
def handOver (v : Session) (c : Caller) : Session :=
  let x : Sent :=
    { caller := c, line := (v.execs c).line, mark := v.received.length, index := v.sent.length }
  { v with cmdLock := some c, pending := some c, sent := v.sent ++ [x] }.setExec c
    { v.execs c with pc := .sending, future := .pending, handed := true, expired := false }

def leave (v : Session) : Session := { v with pending := none, cmdLock := none }

def settle (v : Session) (f : Future) : Session :=
  match v.pending with
  | some c =>
    match (v.execs c).future with
    | .pending => v.setExec c { v.execs c with future := f }
    | _ => v
  | none => v

def shutdown (v : Session) : Session := { v with closed := true }.settle .exception

def recv (v : Session) (line : Bytes) : Session :=
  if isErrorLine line then
    match parseErrorLine line with
    | .ok error =>
      { v with received := v.received ++ [line], dataBuffer := [] }.settle
        (.result v.dataBuffer error)
    | .error _ => { v with received := v.received ++ [line], dataBuffer := [] }.shutdown
  else if isDataLine line then
    { v with received := v.received ++ [line], dataBuffer := v.dataBuffer ++ [line] }
  else { v with received := v.received ++ [line] }

/-- why a caller leaves without an answer, and what becomes of its call -/
inductive Reason (P : Policy) (v : Session) (c : Caller) : ExecPc → Prop where
  | timeout : v.closed = true → Reason P v c (.finished .queryTimeout)
  | closing : v.closed = true → Reason P v c (.finished .cancelled)
  | lost : v.lost = true → Reason P v c (.finished .connectionClosed)
  | exception : (v.execs c).future = .exception → Reason P v c (.finished .connectionClosed)
  | stray : (v.execs c).future = .cancelled → (v.execs c).cancelReq = false →
      ((v.execs c).pc = .sending ∨ (v.execs c).expired = false) →
      Reason P v c (.finished .cancelled)
  | cancelled : (v.execs c).cancelReq = true → P.leave v c → Reason P v c (.finished .cancelled)
  | raised : (v.execs c).pc = .sending → P.leave v c → Reason P v c (.finished .sendError)

/-- what one task can do -/
inductive Move (P : Policy) (v : Session) : Session → Prop where
  | start (c : Caller) (e : Exec) : P.start c → (v.execs c).pc.free = true → e.pc.plain = true →
      e.cancelReq = false → e.handed = false → Move P v (v.setExec c e)
  | outside (c : Caller) (e : Exec) : P.go c → (v.execs c).pc.critical = false →
      (v.execs c).pc.free = false → e.pc.plain = true → e.cancelReq = (v.execs c).cancelReq →
      e.handed = (v.execs c).handed → Move P v (v.setExec c e)
  | handOver (c : Caller) : P.go c → P.send v c → v.closed = false → v.lost = false →
      v.cmdLock = none → (v.execs c).pc = .locking → (v.execs c).cancelReq = false →
      Move P v (v.handOver c)
  | await (c : Caller) (deadline : ℚ) : P.go c → (v.execs c).pc = .sending →
      Move P v (v.setExec c { v.execs c with pc := .awaiting deadline })
  | close (c : Caller) (p : ClosePc) : P.go c → (v.execs c).pc.critical = true → v.closed = true →
      Move P v (v.setExec c { v.execs c with pc := .closing p, expired := false })
  | cancel (c : Caller) : P.cancel v c → Move P v (v.setExec c (v.execs c).cancel)
  | expire (c : Caller) {deadline : ℚ} : (v.execs c).pc = .awaiting deadline →
      Move P v (v.setExec c (v.execs c).expire)
  | expireClose (c : Caller) {p : ClosePc} : (v.execs c).pc = .closing p →
      Move P v (v.setExec c (v.execs c).expire)
  | complete (c : Caller) {data : List Bytes} {error : ErrorLine} {pc : ExecPc} :
      P.go c → (v.execs c).pc.critical = true → (v.execs c).future = .result data error →
      Completes data error pc → Move P v (v.leave.setExec c { v.execs c with pc := pc })
  | leave (c : Caller) {pc : ExecPc} : P.go c → (v.execs c).pc.critical = true →
      Reason P v c pc → Move P v (v.leave.setExec c { v.execs c with pc := pc })
  | recv (line : Bytes) : v.closed = false → P.recv v line → Move P v (v.recv line)
  | shutdown : v.closed = false → Move P v v.shutdown
  | lose : Move P v { v with lost := true }

abbrev Moves (P : Policy) : Session → Session → Prop := Relation.ReflTransGen (Move P)

/-! ## the invariant of every run -/

def lastSent (v : Session) (c : Caller) : Option Sent :=
  (v.sent.filter fun x => x.caller == c).getLast?

/-- the future of the caller that owns the lock and sent `x` -/
def FutureOk (v : Session) (x : Sent) (e : Exec) : Prop :=
  match e.future with
  | .pending => v.closed = false ∧ e.expired = false ∧ Unanswered v.received x.mark
  | .result data error => Answered v.received x.mark data error
  | .exception => v.closed = true
  | .cancelled => e.pc ≠ .sending ∧ (v.closed = true ∨ e.cancelReq = true ∨ e.expired = true)

/-- what a call that got an answer made of it -/
def ResultOk (v : Session) (c : Caller) : ExecPc → Prop
  | .finished (.rows rows) => ∃ x data error, v.lastSent c = some x ∧
      Answered v.received x.mark data error ∧ error.ok = true ∧ rows = parseDataBlock data
  | .finished (.queryError e) => ∃ x data error, v.lastSent c = some x ∧
      Answered v.received x.mark data error ∧ error.ok = false ∧
      e = .create error.id error.msg error.extra
  | .finished .queryTimeout => v.closed = true
  | .closing _ => v.closed = true
  | _ => True

/-- one caller; nothing here depends on the other callers -/
structure CallerOk (v : Session) (c : Caller) (e : Exec) : Prop where
  holder : e.pc.critical = true ↔ v.cmdLock = some c
  handed : v.cmdLock = some c → e.handed = true
  own : v.cmdLock = some c → ∃ x, v.sent.getLast? = some x ∧ x.caller = c ∧ FutureOk v x e
  result : ResultOk v c e.pc

structure Inv (v : Session) : Prop where
  lock : v.pending = v.cmdLock
  buffer : v.dataBuffer = (demux v.received).data
  marks : ∀ x ∈ v.sent, x.mark ≤ v.received.length
  callers : ∀ c, CallerOk v c (v.execs c)

/-! ## small facts -/

theorem setExec_self (v : Session) (c : Caller) (e : Exec) : (v.setExec c e).execs c = e :=
  Function.update_self ..
theorem setExec_of_ne (v : Session) {c t : Caller} (e : Exec) (h : t ≠ c) :
    (v.setExec c e).execs t = v.execs t := Function.update_of_ne h ..

theorem settle_cases (v : Session) :
    (∃ c, v.pending = some c ∧ (v.execs c).future = .pending ∧
      ∀ f, v.settle f = v.setExec c { v.execs c with future := f }) ∨
    ((∀ c, v.pending = some c → (v.execs c).future ≠ .pending) ∧ ∀ f, v.settle f = v) := by
  cases hp : v.pending with
  | none =>
    refine Or.inr ⟨fun c hc => (Option.some_ne_none c hc.symm).elim, fun f => ?_⟩
    unfold settle
    rw [hp]
  | some c =>
    by_cases hf : (v.execs c).future = .pending
    · refine Or.inl ⟨c, rfl, hf, fun f => ?_⟩
      unfold settle
      rw [hp]
      show (match (v.execs c).future with | .pending => _ | _ => _) = _
      rw [hf]
    · refine Or.inr ⟨fun t ht => (Option.some.inj ht) ▸ hf, fun f => ?_⟩
      unfold settle
      rw [hp]
      show (match (v.execs c).future with | .pending => _ | _ => v) = v
      cases h : (v.execs c).future with
      | pending => exact absurd h hf
      | _ => rfl

theorem resultOk_of_plain (v : Session) (c : Caller) {pc : ExecPc} (h : pc.plain = true) :
    ResultOk v c pc := by
  cases pc with
  | finished o =>
    cases o with
    | rows => cases h
    | queryError => cases h
    | queryTimeout => cases h
    | _ => trivial
  | closing p => cases h
  | _ => trivial

theorem lastSent_of_getLast? {v : Session} {x : Sent} (h : v.sent.getLast? = some x) :
    v.lastSent x.caller = some x := by
  obtain ⟨init, hinit⟩ := List.getLast?_eq_some_iff.mp h
  have hx : [x].filter (fun y => y.caller == x.caller) = [x] :=
    List.filter_cons_of_pos (beq_self_eq_true _)
  unfold lastSent
  rw [hinit, List.filter_append, hx]
  exact List.getLast?_concat

theorem mem_of_lastSent {v : Session} {c : Caller} {x : Sent} (h : v.lastSent c = some x) :
    x ∈ v.sent := (List.mem_filter.mp (List.mem_of_getLast? h)).1

theorem lastSent_handOver_of_ne (v : Session) {c t : Caller} (h : t ≠ c) :
    (v.handOver c).lastSent t = v.lastSent t := by
  have hx : ∀ x : Sent, x.caller = c → [x].filter (fun y => y.caller == t) = [] := fun x hx =>
    List.filter_cons_of_neg fun e => h ((beq_iff_eq.mp e).symm.trans hx)
  unfold lastSent handOver setExec
  rw [List.filter_append, hx _ rfl, List.append_nil]

/-! ## one caller -/

theorem CallerOk.congr {v v' : Session} {c : Caller} {e : Exec} (h : CallerOk v c e)
    (hclosed : v'.closed = v.closed) (hlock : v'.cmdLock = v.cmdLock) (hsent : v'.sent = v.sent)
    (hreceived : v'.received = v.received) : CallerOk v' c e := by
  cases v
  cases v'
  cases hclosed
  cases hlock
  cases hsent
  cases hreceived
  exact ⟨h.holder, h.handed, h.own, h.result⟩

theorem CallerOk.of_plain {v : Session} {c : Caller} {e : Exec} (hlock : v.cmdLock ≠ some c)
    (he : e.pc.plain = true) : CallerOk v c e := by
  refine ⟨⟨fun h => ?_, fun h => absurd h hlock⟩, fun h => absurd h hlock, fun h => absurd h hlock,
    resultOk_of_plain v c he⟩
  rw [ExecPc.critical_of_plain he] at h
  cases h

theorem CallerOk.update {v : Session} {c : Caller} {e e' : Exec} (h : CallerOk v c e)
    (hcrit : e'.pc.critical = e.pc.critical) (hhanded : e'.handed = e.handed)
    (hfut : ∀ x, FutureOk v x e → FutureOk v x e') (hres : ResultOk v c e'.pc) :
    CallerOk v c e' := by
  refine ⟨by rw [hcrit]; exact h.holder, by rw [hhanded]; exact h.handed, fun hc => ?_, hres⟩
  obtain ⟨x, h1, h2, h3⟩ := h.own hc
  exact ⟨x, h1, h2, hfut x h3⟩

theorem FutureOk.cancel {v : Session} {x : Sent} {e : Exec} (h : FutureOk v x e) :
    FutureOk v x e.cancel := by
  unfold FutureOk Exec.cancel Exec.interrupt at *
  cases hf : e.future <;> cases hp : e.pc <;> simp_all

theorem FutureOk.expire {v : Session} {x : Sent} {e : Exec} (h : FutureOk v x e)
    (hp : (∃ d, e.pc = .awaiting d) ∨ v.closed = true) : FutureOk v x e.expire := by
  unfold FutureOk Exec.expire Exec.interrupt at *
  rcases hp with ⟨d, hp⟩ | hc
  · rw [hp]
    cases hf : e.future <;> simp_all
  · cases hf : e.future <;> simp_all

/-! ## the moves -/

theorem Inv.setExec {v : Session} (h : Inv v) (c : Caller) {e : Exec} (he : CallerOk v c e) :
    Inv (v.setExec c e) := by
  refine ⟨h.lock, h.buffer, h.marks, fun t => ?_⟩
  by_cases ht : t = c
  · rw [ht, setExec_self]
    exact he.congr rfl rfl rfl rfl
  · rw [setExec_of_ne _ _ ht]
    exact (h.callers t).congr rfl rfl rfl rfl

theorem Inv.leave {v : Session} (h : Inv v) (c : Caller) {pc : ExecPc}
    (hc : (v.execs c).pc.critical = true) (hpc : pc.critical = false) (hres : ResultOk v c pc) :
    Inv (v.leave.setExec c { v.execs c with pc := pc }) := by
  have hlock := (h.callers c).holder.mp hc
  refine ⟨rfl, h.buffer, h.marks, fun t => ?_⟩
  by_cases ht : t = c
  · rw [ht, setExec_self]
    refine ⟨⟨fun e => ?_, nofun⟩, nofun, nofun, hres⟩
    rw [hpc] at e
    cases e
  · rw [setExec_of_ne _ _ ht]
    refine ⟨⟨fun e => ?_, nofun⟩, nofun, nofun, (h.callers t).result⟩
    have := hlock.symm.trans ((h.callers t).holder.mp e)
    exact absurd (Option.some.inj this).symm ht

theorem Inv.handOver {v : Session} (h : Inv v) (c : Caller) (hclosed : v.closed = false)
    (hlock : v.cmdLock = none) : Inv (v.handOver c) := by
  refine ⟨rfl, h.buffer, fun x hx => ?_, fun t => ?_⟩
  · rcases List.mem_append.mp hx with hx | hx
    · exact h.marks x hx
    · rw [List.mem_singleton.mp hx]
      exact Nat.le_refl _
  · by_cases ht : t = c
    · rw [ht]
      unfold Session.handOver
      rw [setExec_self]
      refine ⟨⟨fun _ => rfl, fun _ => rfl⟩, fun _ => rfl,
        fun _ => ⟨_, List.getLast?_concat, rfl, ?_⟩, trivial⟩
      exact ⟨hclosed, rfl, Unanswered.new v.received⟩
    · have hne : (v.handOver c).cmdLock ≠ some t := fun e => ht (Option.some.inj e).symm
      have hrest := h.callers t
      have hexec : (v.handOver c).execs t = v.execs t := setExec_of_ne _ _ ht
      rw [hexec]
      refine ⟨⟨fun e => ?_, fun e => absurd e hne⟩, fun e => absurd e hne,
        fun e => absurd e hne, ?_⟩
      · have := hrest.holder.mp e
        rw [hlock] at this
        cases this
      · have hres := hrest.result
        unfold ResultOk at hres ⊢
        rw [lastSent_handOver_of_ne v ht]
        exact hres

/-- as `CallerOk`, with nothing said about a future that is still pending -/
structure CallerDue (v : Session) (c : Caller) (e : Exec) : Prop where
  holder : e.pc.critical = true ↔ v.cmdLock = some c
  handed : v.cmdLock = some c → e.handed = true
  own : v.cmdLock = some c → ∃ x, v.sent.getLast? = some x ∧ x.caller = c ∧
    (e.future ≠ .pending → FutureOk v x e)
  result : ResultOk v c e.pc

theorem CallerOk.due {v : Session} {c : Caller} {e : Exec} (h : CallerOk v c e) :
    CallerDue v c e := by
  refine ⟨h.holder, h.handed, fun hc => ?_, h.result⟩
  obtain ⟨x, h1, h2, h3⟩ := h.own hc
  exact ⟨x, h1, h2, fun _ => h3⟩

theorem Inv.settle {w : Session} (f : Future) (lock : w.pending = w.cmdLock)
    (buffer : w.dataBuffer = (demux w.received).data)
    (marks : ∀ x ∈ w.sent, x.mark ≤ w.received.length) (due : ∀ c, CallerDue w c (w.execs c))
    (hf : ∀ c x, w.sent.getLast? = some x → w.cmdLock = some c → (w.execs c).future = .pending →
      FutureOk w x { w.execs c with future := f }) : Inv (w.settle f) := by
  have hsettled : ∀ c, (w.cmdLock = some c → (w.execs c).future ≠ .pending) →
      CallerOk w c (w.execs c) := fun c hne => by
    refine ⟨(due c).holder, (due c).handed, fun hc => ?_, (due c).result⟩
    obtain ⟨x, h1, h2, h3⟩ := (due c).own hc
    exact ⟨x, h1, h2, h3 (hne hc)⟩
  rcases w.settle_cases with ⟨c, hp, hfut, hset⟩ | ⟨hne, hset⟩
  · have hc : w.cmdLock = some c := lock.symm.trans hp
    rw [hset]
    refine ⟨lock, buffer, marks, fun t => ?_⟩
    by_cases ht : t = c
    · rw [ht, setExec_self]
      obtain ⟨x, h1, h2, _⟩ := (due c).own hc
      exact ⟨(due c).holder, (due c).handed, fun _ => ⟨x, h1, h2, hf c x h1 hc hfut⟩,
        (due c).result⟩
    · rw [setExec_of_ne _ _ ht]
      have hne : w.cmdLock ≠ some t := fun e => ht (Option.some.inj (hc.symm.trans e)).symm
      exact (hsettled t fun e => absurd e hne).congr rfl rfl rfl rfl
  · rw [hset]
    exact ⟨lock, buffer, marks, fun t => hsettled t fun ht => hne t (lock.trans ht)⟩

theorem ResultOk.mono {v w : Session} {c : Caller} {pc : ExecPc} (h : ResultOk v c pc)
    (marks : ∀ x ∈ v.sent, x.mark ≤ v.received.length) (hclosed : v.closed = true → w.closed = true)
    (hsent : w.sent = v.sent) (more : List Bytes) (hreceived : w.received = v.received ++ more) :
    ResultOk w c pc := by
  have hlast : w.lastSent c = v.lastSent c := by unfold lastSent; rw [hsent]
  have hans : ∀ {x : Sent} {data : List Bytes} {error : ErrorLine}, v.lastSent c = some x →
      Answered v.received x.mark data error → Answered w.received x.mark data error := by
    intro x data error hx ha
    rw [hreceived]
    exact ha.append (marks x (mem_of_lastSent hx)) more
  cases pc with
  | closing p => exact hclosed h
  | finished o =>
    cases o with
    | rows r =>
      obtain ⟨x, data, error, hx, ha, hok, hr⟩ := h
      exact ⟨x, data, error, hlast.trans hx, hans hx ha, hok, hr⟩
    | queryError e =>
      obtain ⟨x, data, error, hx, ha, hok, he⟩ := h
      exact ⟨x, data, error, hlast.trans hx, hans hx ha, hok, he⟩
    | queryTimeout => exact hclosed h
    | _ => trivial
  | _ => trivial

theorem Inv.shutdown_of {w : Session} (lock : w.pending = w.cmdLock)
    (buffer : w.dataBuffer = (demux w.received).data)
    (marks : ∀ x ∈ w.sent, x.mark ≤ w.received.length)
    (due : ∀ c, CallerDue w c (w.execs c)) : Inv w.shutdown := by
  refine Inv.settle .exception lock buffer marks
    (fun c => ⟨(due c).holder, (due c).handed, fun hc => ?_, ?_⟩) (fun c x _ _ _ => rfl)
  · obtain ⟨x, h1, h2, h3⟩ := (due c).own hc
    refine ⟨x, h1, h2, fun hne => ?_⟩
    have h3 := h3 hne
    unfold FutureOk at h3 ⊢
    cases hf : (w.execs c).future with
    | pending => exact absurd hf hne
    | result data error => rw [hf] at h3; exact h3
    | exception => rfl
    | cancelled => rw [hf] at h3; exact ⟨h3.1, Or.inl rfl⟩
  · exact (due c).result.mono marks (fun _ => rfl) rfl [] (List.append_nil _).symm

theorem Inv.shutdown {v : Session} (h : Inv v) : Inv v.shutdown :=
  Inv.shutdown_of h.lock h.buffer h.marks fun c => (h.callers c).due

theorem CallerDue.recv {v : Session} (h : Inv v) (c : Caller) (line : Bytes)
    (buffer : List Bytes) :
    CallerDue { v with received := v.received ++ [line], dataBuffer := buffer } c (v.execs c) := by
  refine ⟨(h.callers c).holder, (h.callers c).handed, fun hc => ?_, ?_⟩
  · obtain ⟨x, h1, h2, h3⟩ := (h.callers c).own hc
    refine ⟨x, h1, h2, fun hne => ?_⟩
    unfold FutureOk at h3 ⊢
    cases hf : (v.execs c).future with
    | pending => exact absurd hf hne
    | result data error =>
      rw [hf] at h3
      exact h3.append (h.marks x (List.mem_of_getLast? h1)) [line]
    | exception => rw [hf] at h3; exact h3
    | cancelled => rw [hf] at h3; exact h3
  · exact (h.callers c).result.mono h.marks id rfl [line] rfl

theorem CallerOk.recv {v : Session} (h : Inv v) (c : Caller) {line : Bytes} (buffer : List Bytes)
    (hl : isErrorLine line = false) :
    CallerOk { v with received := v.received ++ [line], dataBuffer := buffer } c (v.execs c) := by
  have hdue := CallerDue.recv h c line buffer
  refine ⟨hdue.holder, hdue.handed, fun hc => ?_, hdue.result⟩
  obtain ⟨x, h1, h2, h3⟩ := (h.callers c).own hc
  refine ⟨x, h1, h2, ?_⟩
  obtain ⟨x', h1', _, h3'⟩ := hdue.own hc
  cases Option.some.inj (h1.symm.trans h1')
  by_cases hf : (v.execs c).future = .pending
  · unfold FutureOk at h3 ⊢
    rw [hf] at h3 ⊢
    exact ⟨h3.1, h3.2.1, h3.2.2.append (h.marks x (List.mem_of_getLast? h1)) hl⟩
  · exact h3' hf

theorem marks_recv {v : Session} (h : Inv v) (line : Bytes) :
    ∀ x ∈ v.sent, x.mark ≤ (v.received ++ [line]).length := fun x hx =>
  (h.marks x hx).trans (by rw [List.length_append]; exact Nat.le_add_right _ _)

theorem Inv.recv {v : Session} (h : Inv v) (line : Bytes) : Inv (v.recv line) := by
  unfold Session.recv
  cases hl : isErrorLine line with
  | false =>
    rw [if_neg (by decide)]
    cases hd : isDataLine line with
    | true =>
      refine ⟨h.lock, ?_, marks_recv h line, fun c => CallerOk.recv h c _ hl⟩
      show v.dataBuffer ++ [line] = (demux (v.received ++ [line])).data
      rw [demux_concat, Demux.take_data _ hd, h.buffer]
    | false =>
      refine ⟨h.lock, ?_, marks_recv h line, fun c => CallerOk.recv h c v.dataBuffer hl⟩
      show v.dataBuffer = (demux (v.received ++ [line])).data
      rw [demux_concat, Demux.take_neutral _ hl hd, h.buffer]
  | true =>
    have hbuffer : [] = (demux (v.received ++ [line])).data := by
      rw [demux_concat, Demux.take_error _ hl]
    -- the line is a terminator: it settles the pending future, with its answer or with an error
    rw [if_pos rfl]
    cases hp : parseErrorLine line with
    | error e =>
      exact Inv.shutdown_of h.lock hbuffer (marks_recv h line) fun c => CallerDue.recv h c line []
    | ok error =>
      refine Inv.settle _ h.lock hbuffer (marks_recv h line)
        (fun c => CallerDue.recv h c line []) (fun c x hx hc hf => ?_)
      obtain ⟨x', h1, _, h3⟩ := (h.callers c).own hc
      cases Option.some.inj (hx.symm.trans h1)
      have hf' : (v.execs c).future = .pending := hf
      unfold FutureOk at h3
      rw [hf'] at h3
      show Answered (v.received ++ [line]) x.mark v.dataBuffer error
      rw [h.buffer]
      exact h3.2.2.answered (h.marks x (List.mem_of_getLast? hx)) hl hp

/-- a future that nobody cancelled was cancelled by the end of the connection -/
theorem Inv.closed_of_stray {v : Session} (h : Inv v) {c : Caller}
    (hc : (v.execs c).pc.critical = true) (hf : (v.execs c).future = .cancelled)
    (hq : (v.execs c).cancelReq = false)
    (he : (v.execs c).pc = .sending ∨ (v.execs c).expired = false) : v.closed = true := by
  obtain ⟨x, _, _, h3⟩ := (h.callers c).own ((h.callers c).holder.mp hc)
  unfold FutureOk at h3
  rw [hf, hq] at h3
  rcases h3.2 with h3' | h3' | h3'
  · exact h3'
  · cases h3'
  · rw [h3'] at he
    exact absurd (he.resolve_right (by decide)) h3.1

/-- **Every move keeps the invariant.** -/
theorem Move.inv {P : Policy} {v v' : Session} (hm : Move P v v') (h : Inv v) : Inv v' := by
  cases hm with
  | start c e _ hfree he _ _ =>
    refine h.setExec c (.of_plain (fun hlock => ?_) he)
    have hc := (h.callers c).holder.mpr hlock
    rw [ExecPc.critical_of_free hfree] at hc
    cases hc
  | outside c e _ hc _ he _ _ =>
    refine h.setExec c (.of_plain (fun hlock => ?_) he)
    rw [(h.callers c).holder.mpr hlock] at hc
    cases hc
  | handOver c _ _ hclosed _ hlock _ _ => exact h.handOver c hclosed hlock
  | await c d _ hpc =>
    refine h.setExec c ((h.callers c).update (by rw [hpc]; rfl) rfl (fun x hx => ?_) trivial)
    unfold FutureOk at hx ⊢
    cases hf : (v.execs c).future with
    | cancelled => rw [hf] at hx; exact absurd hpc hx.1
    | _ => rw [hf] at hx; exact hx
  | close c p _ hc hclosed =>
    refine h.setExec c ((h.callers c).update hc.symm rfl (fun x hx => ?_) hclosed)
    unfold FutureOk at hx ⊢
    cases hf : (v.execs c).future with
    | pending => rw [hf] at hx; rw [hclosed] at hx; cases hx.1
    | result data error => rw [hf] at hx; exact hx
    | exception => exact hclosed
    | cancelled => exact ⟨ExecPc.noConfusion, Or.inl hclosed⟩
  | cancel c _ =>
    refine h.setExec c ((h.callers c).update (by rw [Exec.cancel_pc]) (Exec.cancel_handed _)
      (fun x hx => hx.cancel) ?_)
    rw [Exec.cancel_pc]
    exact (h.callers c).result
  | expire c hpc =>
    refine h.setExec c ((h.callers c).update (by rw [Exec.expire_pc]) (Exec.expire_handed _)
      (fun x hx => hx.expire (Or.inl ⟨_, hpc⟩)) ?_)
    rw [Exec.expire_pc]
    exact (h.callers c).result
  | expireClose c hpc =>
    have hres := (h.callers c).result
    have hclosed : v.closed = true := by rw [hpc] at hres; exact hres
    refine h.setExec c ((h.callers c).update (by rw [Exec.expire_pc]) (Exec.expire_handed _)
      (fun x hx => hx.expire (Or.inr hclosed)) ?_)
    rw [Exec.expire_pc]
    exact hres
  | @complete c data error pc _ hc hf hpc =>
    obtain ⟨x, h1, h2, h3⟩ := (h.callers c).own ((h.callers c).holder.mp hc)
    unfold FutureOk at h3
    rw [hf] at h3
    have hlast : v.lastSent c = some x := h2 ▸ lastSent_of_getLast? h1
    cases hpc with
    | rows hok => exact h.leave c hc rfl ⟨x, data, error, hlast, h3, hok, rfl⟩
    | queryError hok => exact h.leave c hc rfl ⟨x, data, error, hlast, h3, hok, rfl⟩
    | retry wake => exact h.leave c hc rfl trivial
  | leave c _ hc hwhy =>
    cases hwhy with
    | timeout hclosed => exact h.leave c hc rfl hclosed
    | _ => exact h.leave c hc rfl trivial
  | recv line _ _ => exact h.recv line
  | shutdown _ => exact h.shutdown
  | lose => exact ⟨h.lock, h.buffer, h.marks, fun c => (h.callers c).congr rfl rfl rfl rfl⟩

/-! ## what a caller's record can become -/

theorem setExec_pc (v : Session) (c : Caller) {e : Exec} (he : e.pc = (v.execs c).pc) (t : Caller) :
    ((v.setExec c e).execs t).pc = (v.execs t).pc := by
  by_cases h : t = c
  · rw [h, setExec_self, he]
  · rw [setExec_of_ne _ _ h]

theorem settle_pc (v : Session) (f : Future) (t : Caller) :
    ((v.settle f).execs t).pc = (v.execs t).pc := by
  rcases v.settle_cases with ⟨c, _, _, hset⟩ | ⟨_, hset⟩
  · rw [hset]
    refine setExec_pc v c ?_ t
    rfl
  · rw [hset]

theorem recv_pc (v : Session) (line : Bytes) (t : Caller) :
    ((v.recv line).execs t).pc = (v.execs t).pc := by
  unfold recv
  split
  · split
    · exact settle_pc _ _ t
    · exact settle_pc _ _ t
  · split <;> rfl

theorem Move.free {P : Policy} {v v' : Session} (hm : Move P v v') {t : Caller}
    (hs : ¬ P.start t) (hfree : (v.execs t).pc.free = true) : (v'.execs t).pc.free = true := by
  have hne : ∀ {c : Caller} {w : Session} {e : Exec}, w.execs = v.execs →
      (v.execs c).pc.free = false → ((w.setExec c e).execs t).pc.free = true := by
    rintro c w e hw hc
    rw [setExec_of_ne, hw, hfree]
    rintro rfl
    rw [hfree] at hc
    cases hc
  have hcrit : ∀ {c : Caller}, (v.execs c).pc.critical = true → (v.execs c).pc.free = false := by
    intro c hc
    cases hf : (v.execs c).pc.free with
    | false => rfl
    | true => rw [ExecPc.critical_of_free hf] at hc; cases hc
  cases hm with
  | start c e h =>
    rw [setExec_of_ne, hfree]
    rintro rfl
    exact hs h
  | outside c e _ _ hc _ _ => exact hne rfl hc
  | handOver c _ _ _ _ _ hpc => exact hne rfl (by rw [hpc]; rfl)
  | await c d _ hpc => exact hne rfl (by rw [hpc]; rfl)
  | close c p _ hc => exact hne rfl (hcrit hc)
  | complete c _ hc => exact hne rfl (hcrit hc)
  | leave c _ hc => exact hne rfl (hcrit hc)
  | cancel c => rw [setExec_pc v c (Exec.cancel_pc _) t]; exact hfree
  | expire c => rw [setExec_pc v c (Exec.expire_pc _) t]; exact hfree
  | expireClose c => rw [setExec_pc v c (Exec.expire_pc _) t]; exact hfree
  | recv line => rw [recv_pc v line t]; exact hfree
  | shutdown =>
    rw [show (v.shutdown.execs t).pc = (v.execs t).pc from settle_pc { v with closed := true } _ t]
    exact hfree
  | lose => exact hfree

/-! ## the fields that `settle` leaves alone -/

/-- what `InStep` speaks about, the closed flag aside -/
structure SameWire (v w : Session) : Prop where
  lost : w.lost = v.lost
  cmdLock : w.cmdLock = v.cmdLock
  sent : w.sent = v.sent
  received : w.received = v.received

theorem sameWire_settle (v : Session) (f : Future) :
    SameWire v (v.settle f) ∧ (v.settle f).closed = v.closed := by
  rcases v.settle_cases with ⟨c, _, _, hset⟩ | ⟨_, hset⟩
  · rw [hset]
    exact ⟨⟨rfl, rfl, rfl, rfl⟩, rfl⟩
  · rw [hset]
    exact ⟨⟨rfl, rfl, rfl, rfl⟩, rfl⟩

theorem settle_closed (v : Session) (f : Future) (b : Bool) :
    { v with closed := b }.settle f = { v.settle f with closed := b } := by
  rcases v.settle_cases with ⟨c, hp, hf, hset⟩ | ⟨hne, hset⟩ <;>
    rcases settle_cases { v with closed := b } with ⟨c', hp', hf', hset'⟩ | ⟨hne', hset'⟩
  · cases Option.some.inj (hp.symm.trans hp')
    rw [hset, hset']
    rfl
  · exact absurd hf (hne' c hp)
  · exact absurd hf' (hne c' hp')
  · rw [hset, hset']

theorem sameWire_shutdown (v : Session) : SameWire v v.shutdown ∧ v.shutdown.closed = true := by
  obtain ⟨⟨h1, h2, h3, h4⟩, h5⟩ := sameWire_settle { v with closed := true } .exception
  exact ⟨⟨h1, h2, h3, h4⟩, h5⟩

theorem sameWire_recv (v : Session) (line : Bytes) :
    SameWire { v with received := v.received ++ [line] } (v.recv line) ∧
      (v.closed = true → (v.recv line).closed = true) := by
  unfold recv
  split
  · split
    · obtain ⟨⟨h1, h2, h3, h4⟩, h5⟩ := sameWire_settle
        { v with received := v.received ++ [line], dataBuffer := [] } (.result v.dataBuffer _)
      exact ⟨⟨h1, h2, h3, h4⟩, fun hc => h5.trans hc⟩
    · obtain ⟨⟨h1, h2, h3, h4⟩, h5⟩ := sameWire_shutdown
        { v with received := v.received ++ [line], dataBuffer := [] }
      exact ⟨⟨h1, h2, h3, h4⟩, fun _ => h5⟩
  · split <;> exact ⟨⟨rfl, rfl, rfl, rfl⟩, id⟩

end Session
end Atsq
