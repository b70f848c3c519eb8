import Atsq.Connection.Events

/-!
# The end of a connection

`Shut cfg s` collects what holds of a closed connection: the pending future is done, the sentinel is
in the queue and last, nothing is sent any more, and nobody waits for what cannot come.

Main result: `shutdown_invariant`.
-/

namespace Atsq
open Py

namespace Session

/-- once closed, for good, and without another line -/
theorem Move.sent_of_closed {P : Policy} {v v' : Session} (hm : Move P v v')
    (hc : v.closed = true) : v'.sent = v.sent ∧ v'.closed = true := by
  cases hm with
  | handOver c _ _ hopen => rw [hc] at hopen; cases hopen
  | recv line hopen => rw [hc] at hopen; cases hopen
  | shutdown hopen => rw [hc] at hopen; cases hopen
  | _ => exact ⟨rfl, hc⟩

theorem sent_moves {P : Policy} {v v' : Session} (hm : Moves P v v') (hc : v.closed = true) :
    v'.sent = v.sent := by
  have h : v'.sent = v.sent ∧ v'.closed = true := by
    induction hm with
    | refl => exact ⟨rfl, hc⟩
    | tail _ hm ih =>
      obtain ⟨h1, h2⟩ := hm.sent_of_closed ih.2
      exact ⟨h1.trans ih.1, h2⟩
  exact h.1

theorem Inv.done {v : Session} (h : Inv v) (hc : v.closed = true) {c : Caller}
    (hp : v.pending = some c) : (v.execs c).future ≠ .pending := by
  intro hf
  obtain ⟨x, _, _, h3⟩ := (h.callers c).own (h.lock.symm.trans hp)
  unfold FutureOk at h3
  rw [hf, hc] at h3
  cases h3.1

end Session

namespace Conn

structure Shut (cfg : Config) (s : Conn) : Prop where
  pending : ∀ c, s.pending = some c → (s.execs c).future ≠ .pending
  sentinel : ∃ evs : List Event, s.eventQueue.items = evs.map Item.event ++ [.queueClosed]
  quiet : ∀ a s', s.step cfg a = some s' → s'.sent = s.sent
  /-- whoever obtains the lock raises -/
  refused : ∀ c drain s', s.step cfg (.acquire c drain) = some s' →
    (s'.execs c).pc = .finished .connectionClosed
  /-- a caller that waits for a response can go on, and leaves -/
  responses : ∀ c deadline io, (s.execs c).pc = .awaiting deadline →
    ∃ s', s.step cfg (.resume c io) = some s' ∧ (s'.execs c).pc.critical = false
  /-- as long as a consumer waits, some consumer can go on -/
  waiters : ∀ n, s.toFeed.Waiting n →
    ∃ m s', s.toFeed.Waiting m ∧ s.step cfg (.resumeWait m) = some s'
  /-- and every consumer that goes on or calls leaves, so that one after the other all do -/
  leaves : ∀ a n s', a.consumer = some n → s.step cfg a = some s' →
    ∃ o, s'.waits = Function.update s.waits n { pc := .finished o }

/-! ## the callers -/

variable {cfg : Config} {s : Conn} {c : Caller}

theorem finish_pc (o : Outcome) : ((s.finish c o).execs c).pc = .finished o := by
  unfold finish
  rw [setExec_self]

theorem complete_critical (data : List Bytes) (error : ErrorLine) :
    ((s.complete cfg c data error).execs c).pc.critical = false := by
  unfold complete
  simp only []
  split
  · rw [finish_pc]
    rfl
  · split
    · rw [setExec_self]
      rfl
    · rw [finish_pc]
      rfl

theorem awaitFuture_critical (hf : (s.execs c).future ≠ .pending) :
    ((s.awaitFuture cfg c).execs c).pc.critical = false := by
  unfold awaitFuture
  cases h : (s.execs c).future with
  | pending => exact absurd h hf
  | result data error => exact complete_critical data error
  | exception =>
    show ((s.leave.finish c _).execs c).pc.critical = false
    rw [finish_pc]
    rfl
  | cancelled =>
    show ((s.leave.finish c _).execs c).pc.critical = false
    rw [finish_pc]
    rfl

theorem resume_of_closed (hc : s.closed = true) (hf : (s.execs c).future ≠ .pending)
    {deadline : ℚ} (hpc : (s.execs c).pc = .awaiting deadline) (io : Io) :
    ∃ s', s.step cfg (.resume c io) = some s' ∧ (s'.execs c).pc.critical = false := by
  show ∃ s', s.resume cfg c io = some s' ∧ _
  unfold resume
  simp only [hpc]
  split
  · exact ⟨_, rfl, by rw [finish_pc]; rfl⟩
  · split
    · refine ⟨_, rfl, ?_⟩
      rw [close_of_closed s (some c) io hc]
      show ((finish _ c _).execs c).pc.critical = false
      rw [finish_pc]
      rfl
    · exact ⟨_, rfl, awaitFuture_critical hf⟩

/-! ## the consumers -/

theorem feed_leaves (hb : Base s) (hc : s.closed = true) {a : Action} {n : Nat} {s' : Conn}
    (ha : a.consumer = some n) (hs : s.step cfg a = some s') :
    ∃ o, s'.waits = Function.update s.waits n { pc := .finished o } := by
  cases a with
  | wait m timeout =>
    cases ha
    obtain ⟨f', hf', rfl⟩ := Option.map_eq_some_iff.mp hs
    exact Feed.wait_finished (s.deadlineOf timeout) hb.ledger hc hf'
  | resumeWait m =>
    cases ha
    obtain ⟨f', hf', rfl⟩ := Option.map_eq_some_iff.mp hs
    exact Feed.resume_finished hb.ledger hc hf'
  | _ => cases ha

theorem shut (hb : Base s) (hc : s.closed = true) : Shut cfg s where
  pending _ hp := hb.session.done hc hp
  sentinel := by
    have hshape := hb.ledger.shape
    rw [hc] at hshape
    exact ⟨_, hshape⟩
  quiet a s' hs :=
    Session.sent_moves (step_moves hb.session hb.tasks (allowed_any s a) hs) hc
  refused c drain s' hs := by
    cases step_cases hs with
    | acquire _ _ _ =>
      unfold execLine
      rw [if_pos hc, finish_pc]
    | feed hfa _ => cases hfa
  responses c deadline io hpc := by
    have hlock := (hb.session.callers c).holder.mp (by
      show (s.execs c).pc.critical = true
      rw [hpc]
      rfl)
    exact resume_of_closed hc (hb.session.done hc (hb.session.lock.trans hlock)) hpc io
  waiters n hn := by
    obtain ⟨m, f', hm, hf'⟩ := Feed.exists_resume hb.ledger hb.waiters hc hn
    exact ⟨m, s.withFeed f', hm, congrArg (Option.map s.withFeed) hf'⟩
  leaves _ _ _ ha hs := feed_leaves hb hc ha hs

/-- **Shutdown.**  In every run: the closed flag stays up, a receive loop that ended has raised it,
and then `Shut` holds; one quit at most is sent, and the sentinel can always be put back. -/
theorem shutdown_invariant {cfg : Config} {greeting : List Bytes} {s : Conn}
    (h : Sys.Reach (step cfg) anyStep (started cfg greeting) s) :
    (∀ a s', s.step cfg a = some s' → s.closed = true → s'.closed = true) ∧
    (s.recvTask = .ended → s.closed = true) ∧
    (s.closed = true → Shut cfg s) ∧
    (s.closed = false → s.quits = 0) ∧ s.quits ≤ 1 ∧
    ∀ n, (s.waits n).pc ≠ .finished .queueFull := by
  have hb := reach_base h
  refine ⟨fun a s' hs => step_closed hs, fun he => ?_, shut hb, hb.quitsOpen, hb.quits,
    hb.ledger.putBack⟩
  by_contra hc
  have := hb.tasks.recv.mpr (Bool.eq_false_iff.mpr hc)
  rw [he] at this
  cases this

def crashRun : List Action :=
  [.wait 0 none, .exec 0 (lit "version") [] none [], .acquire (.task 0) .done,
    .recv (ascii "error id=x"), .resume (.task 0) {}, .resumeWait 0]

theorem shutdown_invariant_crash :
    ∃ s, Sys.run (step {}) (started {} []) crashRun = some s ∧ s.closed = true ∧ Shut {} s := by
  obtain ⟨s, hs, h⟩ := Sys.exists_reach (step {}) anyStep (started {} []) crashRun
    (fun _ _ => trivial) (by decide +kernel)
  have hc : s.closed = true :=
    Sys.eq_of_run_map (f := fun s : Conn => s.closed) hs (by decide +kernel)
  exact ⟨s, hs, hc, (shutdown_invariant h).2.2.1 hc⟩

end Conn
end Atsq
