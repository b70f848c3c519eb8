import Atsq.Client.Handled

/-!
# What `run_forever` leaves behind

* `Feed.Patient`   a consumer without a timeout: the end of the connection is the end of its queue;
* `Link.Spent`     a closed connection, all its events having left the queue;
* `Behind`         a loop that has lost its connection, or calls `start`, has spent it.

Main result: `nothing_left_behind`, if `on_ready` does not raise.
-/

namespace Atsq
open Py

namespace Feed

/-- a consumer that waits without a timeout -/
structure Patient (f : Feed) (n : Nat) : Prop where
  timeless : ∀ d, (f.waits n).pc = .getting d → d = none ∧ (f.waits n).expired = false
  noTimeout : (f.waits n).pc ≠ .finished .queryTimeout
  closed : (f.waits n).pc = .finished .connectionClosed → f.closed = true ∧ f.queued = []

section
variable {f f' : Feed} {a : Act} {n : Nat}

theorem spent_of_step (hl : Ledger f) (hc : f.closed = true) (hq : f.queued = [])
    (hs : f.step a = some f') : f'.closed = true ∧ f'.queued = [] := by
  have hopen : a ≠ .shutdown := by
    rintro rfl
    rw [step, if_pos hc] at hs
    cases hs
  refine ⟨(step_closed_eq hs hopen).trans hc, ?_⟩
  cases drained_of_step hl hc hs with
  | takes m e _ htake _ => cases hq.symm.trans htake
  | ends m o _ hsame _ _ => exact hsame.trans hq
  | keeps _ hsame _ => exact hsame.trans hq

/-- where the call of a patient consumer is after a step -/
structure Waits (w : Wait) : Prop where
  timeless : ∀ d, w.pc = .getting d → d = none ∧ w.expired = false
  noTimeout : w.pc ≠ .finished .queryTimeout

theorem Waits.finished {o : WaitOutcome} (h : o ≠ .queryTimeout) : Waits { pc := .finished o } :=
  ⟨(fun d hd => by cases hd), (fun hpc => by cases hpc; exact h rfl)⟩

theorem Waits.update {m : Nat} {w : Wait} (h : Waits (f.waits n)) (hw : m = n → Waits w) :
    Waits (Function.update f.waits m w n) := by
  by_cases hm : n = m
  · rw [hm, Function.update_self]
    exact hw hm.symm
  · rw [Function.update_of_ne hm]
    exact h

theorem waits_of_step (hl : Ledger f) (h : Waits (f.waits n)) (ha : ∀ d, a = .wait n d → d = none)
    (hs : f.step a = some f') : Waits (f'.waits n) := by
  have hget : ∀ (q : Aio.Queue Item Nat) (m : Nat) (d : Option ℚ), q.items = f.eventQueue.items →
      (m = n → d = none) → Waits (({ f with eventQueue := q }.get m d).waits n) := by
    intro q m d hq hd
    rcases get_cases hl q hq m d with ⟨e, _, _, _, hw⟩ | ⟨_, _, hw⟩ <;> rw [hw]
    · exact h.update fun _ => .finished nofun
    · refine h.update fun hm => ?_
      cases f.closed with
      | true => exact .finished nofun
      | false =>
        refine ⟨fun d' hd' => ?_, nofun⟩
        cases hd'
        exact ⟨hd hm, rfl⟩
  cases step_cases hs with
  | publish e _ => exact h
  | shutdown _ => exact h
  | waitClosed _ _ _ => exact h.update fun _ => .finished nofun
  | @waitGet m d _ =>
    refine hget f.eventQueue m d rfl fun hm => ha d ?_
    rw [hm]
  | @giveUp m d o hpc hflag ho =>
    refine h.update fun hm => ?_
    subst hm
    obtain ⟨_, hexpired⟩ := h.timeless d hpc
    rw [Wait.flagged, hexpired, Bool.or_false] at hflag
    rw [ho, if_pos hflag]
    exact .finished nofun
  | @wake m d hpc _ _ =>
    refine hget (f.eventQueue.unpark m) m d rfl fun hm => ?_
    subst hm
    exact (h.timeless d hpc).1
  | @expire m _ deadline hpc _ =>
    refine h.update fun hm => ?_
    subst hm
    cases (h.timeless _ hpc).1
  | @cancel m _ hpc =>
    refine h.update fun hm => ?_
    subst hm
    exact ⟨h.timeless, h.noTimeout⟩

theorem patient_of_step (hl : Ledger f) (h : Patient f n) (ha : ∀ d, a = .wait n d → d = none)
    (hs : f.step a = some f') : Patient f' n := by
  have hwaits : Waits (f'.waits n) := waits_of_step hl ⟨h.timeless, h.noTimeout⟩ ha hs
  refine ⟨hwaits.timeless, hwaits.noTimeout, fun hpc => ?_⟩
  have hbefore : f.closed = true ∧ f.queued = [] := by
    by_cases hn : a.consumer = some n
    · exact connectionClosed_of_step hl hs hn hpc
    · rw [(moved_of_step hl hs).stays n hn] at hpc
      exact h.closed hpc
  exact spent_of_step hl hbefore.1 hbefore.2 hs

end
end Feed

namespace Conn

section
variable {cfg : Config} {s s' : Conn} {a : Action}

theorem patient_of_step (hb : Base s) {n : Nat} (h : s.toFeed.Patient n)
    (ha : ∀ d, a = .wait n d → d = none) (hs : s.step cfg a = some s') : s'.toFeed.Patient n := by
  by_cases hwait : ∃ d, a = .wait n d
  · obtain ⟨d, rfl⟩ := hwait
    obtain rfl := ha d rfl
    obtain ⟨f', hf', rfl⟩ := Option.map_eq_some_iff.mp hs
    have hnone : ∀ d, Feed.Act.wait n none = .wait n d → d = none := fun d he => by
      cases he
      rfl
    exact Feed.patient_of_step hb.ledger h hnone (a := .wait n none) hf'
  · rcases (step_effect hb.tasks hs).step_feed with ⟨hf, _⟩ | ⟨fa, hf, hconsumer⟩
    · exact hf ▸ h
    · refine Feed.patient_of_step hb.ledger h (fun d he => ?_) hf
      -- a consumer that is inside a call makes no other one
      subst he
      have hgetting := getting_of_consumer hs hconsumer.symm fun d he => hwait ⟨d, he⟩
      obtain ⟨d', hd'⟩ := hgetting
      simp only [Feed.step, Feed.waitForEvent, Wait.free, hd'] at hf
      cases hf

theorem spent_of_step (hb : Base s) (hc : s.closed = true) (hq : s.queued = [])
    (hs : s.step cfg a = some s') : s'.closed = true ∧ s'.queued = [] := by
  rcases (step_effect hb.tasks hs).step_feed with ⟨hf, _⟩ | ⟨fa, hf, _⟩
  · rw [hf]
    exact ⟨hc, hq⟩
  · exact Feed.spent_of_step hb.ledger hc hq hf

end
end Conn

def Link.Patient (n : Nat) : Link → Prop
  | .greeting _ => True
  | .live c => c.toFeed.Patient (inside n)

/-- a closed connection, all its events having left the queue -/
def Link.Spent : Link → Prop
  | .greeting _ => False
  | .live c => c.closed = true ∧ c.queued = []

section
variable {cc : Config} {loop : Option Nat} {l l' : Link}

theorem Link.Goes.patient {n : Nat} (h : Link.Goes cc loop l l')
    (hb : ∀ c, l = .live c → c.Base) (hl : l.Patient n) : l'.Patient n := by
  cases h with
  | stays => exact hl
  | steps hs hcalls => exact Conn.patient_of_step (hb _ rfl) hl (fun d he => (hcalls n d he).2) hs
  | greets => exact hl
  | begins hidle =>
    refine ⟨fun d hd => ?_, fun hpc => ?_, fun hpc => ?_⟩
    · rw [hidle] at hd
      cases hd
    · rw [hidle] at hpc
      cases hpc
    · rw [hidle] at hpc
      cases hpc

theorem Link.Goes.spent (h : Link.Goes cc loop l l') (hb : ∀ c, l = .live c → c.Base)
    (hl : l.Spent) : l'.Spent := by
  cases h with
  | stays => exact hl
  | steps hs _ => exact Conn.spent_of_step (hb _ rfl) hl.1 hl.2 hs
  | greets => exact hl
  | begins _ => exact absurd hl id

end

namespace Client

/-- the loop has no connection: it sleeps, or its `start` did not return -/
def Seeks (s : Client) (n : Nat) : Prop :=
  (s.runs n).pc = .sleeping ∨
    ((s.runs n).pc = .starting ∧ ∀ j, s.starts (.loop n) ≠ .returned j)

def SpentAt (s : Client) (i : Nat) : Prop := ∃ l, s.links[i]? = some l ∧ l.Spent

structure Behind (s : Client) (n : Nat) : Prop where
  patient : ∀ (i : Nat) (l : Link), s.links[i]? = some l → l.Patient n
  spent : s.Seeks n → ∀ i, s.conn = some i → s.SpentAt i

/-- one loop makes the connections and reads them, and its `on_ready` does not raise -/
def Steady (n : Nat) (s : Client) (a : ClientAction) : Prop :=
  OnlyLoop n s a ∧ ∀ j, a = .resumeRun n false → (s.runs n).pc ≠ .onReady j

section
variable {cfg : ClientConfig} {s s' : Client} {n : Nat} {a : ClientAction}

/-- a `start` that has returned stays so until the loop calls the next one -/
theorem returned_of_step {j : Nat} (hs : s.step cfg a = some s') (ha : a.loop ≠ some n)
    (hr : s.starts (.loop n) = .returned j) : s'.starts (.loop n) = .returned j := by
  have hset : ∀ {r : Client} {o : Owner} {pc : StartPc}, r.starts = s.starts → Owner.loop n ≠ o →
      (r.setStart o pc).starts (.loop n) = .returned j := by
    intro r o pc hsame hne
    refine (Function.update_of_ne hne ..).trans ?_
    rw [hsame]
    exact hr
  have hother : ∀ {o : Owner}, s.starts o ≠ .returned j → Owner.loop n ≠ o := fun ho he =>
    ho (he ▸ hr)
  have hlink : ∀ {o : Owner} {i : Nat}, (s.starts o).link = some i → Owner.loop n ≠ o :=
    fun hi => hother fun he => by
      rw [he] at hi
      cases hi
  have hloop : ∀ {r : Client} {m : Nat} {pc : RunPc}, r.starts = s.starts →
      ClientAction.loop a = some m → LoopEffect cfg r m pc s' →
      s'.starts (.loop n) = .returned j := by
    intro r m pc hsame hm hloop
    have hne : Owner.loop n ≠ .loop m := fun he => ha (hm.trans (congrArg some
      (Owner.loop.inj he).symm))
    cases hloop with
    | stays => exact (congrFun hsame _).trans hr
    | waits _ _ => exact (congrFun hsame _).trans hr
    | calls => exact hset hsame hne
  cases step_cases hs with
  | @start m _ =>
    have hne : Owner.loop n ≠ .user m := fun he => by cases he
    exact hset (r := s.called) rfl hne
  | connected hstart => exact hset rfl (hother (by rw [hstart]; nofun))
  | refused hstart => exact hset rfl (hother (by rw [hstart]; nofun))
  | greets _ _ => exact hr
  | sends _ hgoes _ => exact hset rfl (hlink hgoes.link.1)
  | returns _ hgoes => exact hset rfl (hlink hgoes.link.1)
  | fails _ _ hfails _ => exact hset rfl (hlink hfails.link)
  | raises hstart _ _ => exact hset rfl (hother (by rw [hstart]; nofun))
  | @run m onReady _ _ _ _ hgoes => exact hloop (r := s.begin m onReady) rfl rfl hgoes
  | resumes _ _ hgoes => exact hloop rfl rfl hgoes
  | cancelRun _ => exact hr
  | stops _ _ => exact hr
  | closes _ _ _ _ => exact hr
  | closeReturns _ _ _ => exact hr
  | link _ _ _ => exact hr

theorem Segment.conn {ok : Bool} (hs : Segment cfg s n ok s') : s'.conn = s.conn := by
  cases hs <;> rfl

theorem LinksGo.spentAt {loop : Option Nat} (ht : Tidy cfg s) (h : LinksGo cfg.conn s s' loop)
    {i : Nat} (hi : s.SpentAt i) : s'.SpentAt i := by
  obtain ⟨l, hl, hspent⟩ := hi
  obtain ⟨l', hl', hgoes⟩ := h.old i l hl
  exact ⟨l', hl', hgoes.spent (fun c he => ht.base i c (he ▸ hl)) hspent⟩

theorem Segment.spent (hsound : Sound cfg s) (hread : Reading s n) (h : Behind s n) {ok : Bool}
    (hok : ok = false → ∀ j, (s.runs n).pc ≠ .onReady j) (hs : Segment cfg s n ok s')
    (hseeks : s'.Seeks n) {i : Nat} (hconn : s.conn = some i) : s.SpentAt i := by
  have hno : ∀ {r : Client} {pc : RunPc}, pc ≠ .sleeping → pc ≠ .starting →
      ¬ (r.setRun n pc).Seeks n := by
    intro r pc hsleeping hstarting hseeks
    unfold Seeks at hseeks
    rw [setRun_self] at hseeks
    exact hseeks.elim hsleeping fun he => hstarting he.1
  cases hs with
  | ends => exact absurd hseeks (hno nofun nofun)
  | ready _ => exact absurd hseeks (hno nofun nofun)
  | handles _ _ _ => exact absurd hseeks (hno nofun nofun)
  | listens _ _ _ _ => exact absurd hseeks (hno nofun nofun)
  | handled _ _ _ => exact absurd hseeks (hno nofun nofun)
  | calls _ hpc =>
    rcases hpc with hpc | hpc
    · exact h.spent (Or.inl hpc) i hconn
    · rw [(hread.idle hpc).2] at hconn
      cases hconn
  | sleeps _ hloses =>
    cases hloses with
    | @ended j c o hpc hl hwait hcancelled hevent =>
      cases (hread.reads j (Or.inl hpc)).symm.trans hconn
      have hpatient : c.toFeed.Patient (inside n) := h.patient i _ hl
      refine ⟨_, hl, ?_⟩
      cases o with
      | event e => exact absurd rfl (hevent e)
      | connectionClosed => exact hpatient.closed hwait
      | queryTimeout => exact absurd hwait hpatient.noTimeout
      | cancelled => exact absurd rfl hcancelled
      | queueFull => exact absurd hwait ((hsound.tidy.base i c hl).ledger.putBack _)
    | raised hpc hstart =>
      refine h.spent (Or.inr ⟨hpc, fun j hj => ?_⟩) i hconn
      cases hstart.symm.trans hj
    | notReady hpc hok' => exact absurd hpc (hok hok' _)
    | noConn hnone => cases hnone.symm.trans hconn

/-- **What a loop has lost it has read to its end.** -/
theorem step_behind (hsound : Sound cfg s) (hone : One (.loop n) s) (hread : Reading s n)
    (h : Behind s n) (ha : Steady n s a) (hs : s.step cfg a = some s') : Behind s' n := by
  have hmoves := step_moves hsound.owned hs
  have hlinks := step_linksGo hsound.tidy hs
  refine ⟨fun i l' hl' => ?_, fun hseeks i hconn => ?_⟩
  · rcases hlinks.new i l' hl' with ⟨l, hl⟩ | rfl
    · obtain ⟨m, hm, hgoes⟩ := hlinks.old i l hl
      rw [hl'] at hm
      cases hm
      exact hgoes.patient (fun c he => hsound.tidy.base i c (he ▸ hl)) (h.patient i l hl)
    · exact trivial
  · refine hlinks.spentAt hsound.tidy ?_
    by_cases hloop : a.loop = some n
    · cases a with
      | run m onReady =>
        cases hloop
        have hidle := hread.idle ha.1.2
        have hsame : s'.conn = (s.begin n onReady).conn := by
          simp only [step] at hs
          split at hs
          · have hsegment : Segment cfg (s.begin n onReady) n true s' :=
              segment_loopHead (Or.inr (begin_pc s n onReady)) hs
            exact hsegment.conn
          · cases hs
        cases (hsame.trans hidle.2).symm.trans hconn
      | resumeRun m ok =>
        cases hloop
        have hsegment := (segment_resumeRun hs).1
        refine hsegment.spent hsound hread h (fun hok j hpc => ?_) hseeks
          (hsegment.conn.symm.trans hconn)
        rw [hok] at ha
        exact ha.2 j rfl hpc
      | cancelRun m =>
        cases hloop
        rcases hseeks with hpc | ⟨hpc, _⟩ <;> cases (cancelRun_finished hs).symm.trans hpc
      | _ => cases hloop
    · have hruns := hmoves.runs n hloop
      have hreturns : ∀ o, ¬ Returns s s' o := by
        rintro o ⟨j, hlink, hret, _⟩
        obtain rfl := hone.eq_of_factory (StartPc.busy_of_link hlink)
        have hpc := hsound.owned n (StartPc.busy_of_link hlink)
        rcases hseeks with hsleep | ⟨_, hno⟩
        · rw [hruns, hpc] at hsleep
          cases hsleep
        · exact hno j hret
      have hsame := hmoves.conn.resolve_right (not_exists.mpr hreturns)
      refine h.spent ?_ i (hsame.symm.trans hconn)
      rcases hseeks with hpc | ⟨hpc, hno⟩
      · exact Or.inl (hruns ▸ hpc)
      · exact Or.inr ⟨hruns ▸ hpc, fun j hj => hno j (returned_of_step hs hloop hj)⟩

/-- a connection that was installed still is, or there is nothing left on it -/
theorem installed_of_step (hsound : Sound cfg s) (hone : One (.loop n) s) (h : Behind s n)
    (hs : s.step cfg a = some s') {i : Nat} (hi : s.conn = some i ∨ s.SpentAt i) :
    s'.conn = some i ∨ s'.SpentAt i := by
  have hlinks := step_linksGo hsound.tidy hs
  rcases hi with hconn | hspent
  · rcases (step_moves hsound.owned hs).conn with hsame | ⟨o, j, hlink, hret, _⟩
    · exact Or.inl (hsame.trans hconn)
    · obtain rfl := hone.eq_of_factory (StartPc.busy_of_link hlink)
      have hpc := hsound.owned n (StartPc.busy_of_link hlink)
      refine Or.inr (hlinks.spentAt hsound.tidy (h.spent (Or.inr ⟨hpc, fun k hk => ?_⟩) i hconn))
      rw [hk] at hlink
      cases hlink
  · exact Or.inr (hlinks.spentAt hsound.tidy hspent)

theorem behind_init (n : Nat) : Behind {} n :=
  ⟨(fun i l hl => by cases hl), (fun _ i hi => by cases hi)⟩

end
end Client

namespace Dispatcher
variable {H : Type}

/-- one `run_forever` makes all connections and reads them, and its `on_ready` does not raise -/
def Steady (n : Nat) (s : Dispatcher H) : DispatchAction H → Prop
  | .client a => s.client.Steady n a
  | _ => True

theorem Steady.onlyLoop {n : Nat} {s : Dispatcher H} {a : DispatchAction H} (h : Steady n s a) :
    OnlyLoop n s a := by
  cases a with
  | client b => exact h.1
  | _ => exact trivial

section
variable {cfg : ClientConfig} {s₀ s s' : Dispatcher H} {n : Nat}

theorem step_steady {a : DispatchAction H} (h : Alone cfg s n) (hbehind : s.client.Behind n)
    (ha : Steady n s a) (hs : s.step cfg a = some s') :
    Alone cfg s' n ∧ s'.client.Behind n ∧ ∀ i, s.client.conn = some i ∨ s.client.SpentAt i →
      s'.client.conn = some i ∨ s'.client.SpentAt i := by
  refine ⟨step_alone h ha.onlyLoop hs, ?_⟩
  rcases client_of_step hs with ⟨b, c, rfl, hc, hs⟩ | ⟨hclient, _⟩
  · rw [(after_hands (n := n) hs).1]
    exact ⟨Client.step_behind h.sound h.one h.reading hbehind ha hc, fun i hi =>
      Client.installed_of_step h.sound h.one hbehind hc hi⟩
  · rw [hclient]
    exact ⟨hbehind, fun _ => id⟩

/-- **A lone `run_forever` leaves no event behind**, if its `on_ready` does not raise: in every run,
a connection that was installed still is, or it is closed and nothing is in its queue, so that
each event it ever published was evicted or went to the handlers. -/
theorem nothing_left_behind {i : Nat} (h₀ : Sys.Reach (step cfg) (Steady n) {} s₀)
    (hconn : s₀.client.conn = some i) (h : Sys.Reach (step cfg) (Steady n) s₀ s) :
    s.client.conn = some i ∨ ∃ c, s.client.links[i]? = some (.live c) ∧ c.closed = true ∧
      c.published = c.removed.map Prod.snd := by
  have hbefore : Alone cfg s₀ n ∧ s₀.client.Behind n :=
    h₀.inv (I := fun s => Alone cfg s n ∧ s.client.Behind n)
      ⟨alone_init n, Client.behind_init n⟩ fun _ _ _ hi ha hs =>
        ⟨(step_steady hi.1 hi.2 ha hs).1, (step_steady hi.1 hi.2 ha hs).2.1⟩
  have hafter := h.inv (I := fun s => (Alone cfg s n ∧ s.client.Behind n) ∧
    (s.client.conn = some i ∨ s.client.SpentAt i)) ⟨hbefore, Or.inl hconn⟩
      fun _ _ _ hi ha hs => by
        obtain ⟨halone, hbehind, hkeeps⟩ := step_steady hi.1.1 hi.1.2 ha hs
        exact ⟨⟨halone, hbehind⟩, hkeeps i hi.2⟩
  obtain ⟨⟨halone, _⟩, hspent⟩ := hafter
  refine hspent.imp id fun hi => ?_
  obtain ⟨l, hl, hspent⟩ := hi
  cases l with
  | greeting lines => exact absurd hspent id
  | live c =>
    have hhistory : c.published = c.removed.map Prod.snd ++ c.queued :=
      (halone.sound.tidy.base i c hl).ledger.history
    rw [hspent.2, List.append_nil] at hhistory
    exact ⟨c, hl, hspent.1, hhistory⟩

end

def steadyCheck (s : Dispatcher H) (a : DispatchAction H) : Bool :=
  onlyLoopCheck s a && match a with | .client (.resumeRun _ ok) => ok | _ => true

theorem steady_of_check (s : Dispatcher H) (a : DispatchAction H) (h : steadyCheck s a = true) :
    Steady 0 s a := by
  unfold steadyCheck at h
  rw [Bool.and_eq_true] at h
  have honly := onlyLoop_of_check s a h.1
  cases a with
  | client b =>
    refine ⟨honly, fun j he => ?_⟩
    rw [he] at h
    cases h.2
  | _ => exact trivial

def leavingRun : List (DispatchAction Nat) :=
  eventRun (ascii "notifyx n=1") ++
    [.client (.link 0 (.recv (ascii "notifyx n=2"))), .client (.link 0 .eof)]

def rejoiningRun : List (DispatchAction Nat) :=
  [.client (.resumeRun 0 true), .client (.resumeRun 0 true), .client (.resumeRun 0 true),
    .client (.resumeRun 0 true), .client (.resumeRun 0 true), .client (.connected (.loop 0)),
    .client (.greet (.loop 0) (ascii "TS3")), .client (.greet (.loop 0) (ascii "Hi"))]

theorem nothing_left_behind_reconnect :
    ∃ s₀ s, Sys.run (step {}) {} leavingRun = some s₀ ∧ s₀.client.conn = some 0 ∧
      Sys.run (step {}) s₀ rejoiningRun = some s ∧ s.client.conn = some 1 ∧
      (s.client.conn = some 0 ∨ ∃ c, s.client.links[0]? = some (.live c) ∧ c.closed = true ∧
        c.published = c.removed.map Prod.snd) := by
  obtain ⟨s₀, hs₀, h₀⟩ := Sys.exists_reach_of_guard (step {}) (Steady 0) steadyCheck {}
    leavingRun steady_of_check (by decide +kernel)
  have hconn : s₀.client.conn = some 0 :=
    Sys.eq_of_run_map (f := fun s : Dispatcher Nat => s.client.conn) hs₀ (by decide +kernel)
  have hrest : (Sys.run (step {}) {} leavingRun).map (fun s₀ : Dispatcher Nat =>
      (Sys.run (Sys.guard steadyCheck (step {})) s₀ rejoiningRun).isSome) = some true := by
    decide +kernel
  rw [hs₀, Option.map_some, Option.some.injEq] at hrest
  obtain ⟨s, hs, h⟩ := Sys.exists_reach_of_guard (step {}) (Steady 0) steadyCheck s₀
    rejoiningRun steady_of_check hrest
  have hnew : (Sys.run (step {}) {} leavingRun).map (fun s₀ : Dispatcher Nat =>
      (Sys.run (step {}) s₀ rejoiningRun).map fun s => s.client.conn) = some (some (some 1)) := by
    decide +kernel
  rw [hs₀, Option.map_some, Option.some.injEq, hs, Option.map_some, Option.some.injEq] at hnew
  exact ⟨s₀, s, hs₀, hconn, hs, hnew, nothing_left_behind h₀ hconn h⟩

end Dispatcher
end Atsq
