import Atsq.Client.Solo
import Atsq.Client.Segment

/-!
# After `close`, `run_forever` ends

A closed connection gets no further events, so that a loop over them comes to its end.

* `Ending s`         `close` was called, everything is closed, and nobody is inside `start`;
* `runsLeft s n`    how often the task of a loop may still run.

Main result: `close_ends_run_forever`.
-/

namespace Atsq
open Py

def ClientAction.resumes (n : Nat) : ClientAction → Bool
  | .resumeRun m _ => m = n
  | _ => false

namespace Client

def eventsOn (s : Client) (i : Nat) : Nat :=
  match s.links[i]? with
  | some (.live c) => c.queued.length
  | _ => 0

def installedEvents (s : Client) : Nat :=
  match s.conn with
  | some i => s.eventsOn i
  | none => 0

def runsOn (s : Client) (n i : Nat) : Nat :=
  match s.links[i]? with
  | some (.live c) => c.runsLeft (inside n)
  | _ => 1

def runsLeft (s : Client) (n : Nat) : Nat :=
  match (s.runs n).pc with
  | .idle | .finished => 0
  | .sleeping => 1
  | .events i => s.runsOn n i
  | .dispatching i => 2 * s.eventsOn i + 3
  | .onReady _ => 2 * s.installedEvents + 3
  | .starting => 2 * s.installedEvents + 4

/-- `close` was called, everything is closed, and nobody is inside `start` -/
structure Ending (s : Client) : Prop where
  stopping : s.stopping = true
  closed : ∀ (i : Nat) (l : Link), s.links[i]? = some l → l.closed = true
  idle : ∀ o, (s.starts o).free = true

/-- nobody is inside `start`, and nothing is open but the installed connection -/
structure Settled (s : Client) : Prop where
  idle : ∀ o, (s.starts o).free = true
  installed : ∀ i, Open s i → s.conn = some i

/-- the events of the connection that a loop iterates, or will iterate -/
def eventsLeft (s : Client) (n : Nat) : Nat :=
  match (s.runs n).pc with
  | .events i | .dispatching i => s.eventsOn i
  | _ => s.installedEvents

/-- loops go on, also when the sleep before a reconnect is over, and so do the consumers of a
connection -/
def Unaided : Client → ClientAction → Prop
  | _, .resumeRun _ _ => True
  | _, .link _ (.resumeWait _) => True
  | _, _ => False

/-- the loop `n` between `close` and `s`, after the actions `as` -/
structure EndsRun (cfg : ClientConfig) (s₁ : Client) (as : List ClientAction) (s : Client)
    (n : Nat) : Prop where
  /-- two runs for each event that is left, and four -/
  runs : as.countP (ClientAction.resumes n) ≤ 2 * s₁.eventsLeft n + 4
  /-- and less, as long as it has not ended -/
  busy : (s.runs n).pc.free = false → as.countP (ClientAction.resumes n) < 2 * s₁.eventsLeft n + 4
  /-- it can end, if only `on_ready` and the handlers do -/
  ends : ∃ s', Sys.Reach (step cfg) Unaided s s' ∧ (s'.runs n).pc.free = true

structure Fewer (s s' : Client) (n : Nat) : Prop where
  conn : s'.conn = s.conn
  events : ∀ i, s'.eventsOn i ≤ s.eventsOn i
  runs : ∀ i, s'.runsOn n i ≤ s.runsOn n i

section
variable {cfg : ClientConfig} {s s' : Client} {n : Nat}

theorem eventsOn_live {i : Nat} {c : Conn} (hl : s.links[i]? = some (.live c)) :
    s.eventsOn i = c.queued.length := by
  unfold eventsOn
  rw [hl]

theorem runsOn_live {i : Nat} {c : Conn} (hl : s.links[i]? = some (.live c)) :
    s.runsOn n i = c.runsLeft (inside n) := by
  unfold runsOn
  rw [hl]

theorem runsOn_pos (s : Client) (n i : Nat) : 1 ≤ s.runsOn n i := by
  unfold runsOn
  split
  · exact WaitPc.rank_pos _ _
  · exact Nat.le_refl 1

theorem runsLeft_eq_zero : s.runsLeft n = 0 ↔ (s.runs n).pc.free = true := by
  unfold runsLeft
  cases (s.runs n).pc with
  | events i =>
    have hpos := s.runsOn_pos n i
    exact ⟨fun h => absurd h (Nat.ne_of_gt hpos), nofun⟩
  | _ => simp [RunPc.free]

theorem Fewer.refl (s : Client) (n : Nat) : Fewer s s n :=
  ⟨rfl, fun _ => Nat.le_refl _, fun _ => Nat.le_refl _⟩

theorem Fewer.congr {r : Client} (h : Fewer s r n) (hlinks : s'.links = r.links)
    (hconn : s'.conn = r.conn) : Fewer s s' n := by
  refine ⟨hconn.trans h.conn, fun i => ?_, fun i => ?_⟩
  · have hevents : s'.eventsOn i = r.eventsOn i := by
      unfold eventsOn
      rw [hlinks]
    exact hevents.le.trans (h.events i)
  · have hleft : s'.runsOn n i = r.runsOn n i := by
      unfold runsOn
      rw [hlinks]
    exact hleft.le.trans (h.runs i)

theorem Fewer.installed (h : Fewer s s' n) : s'.installedEvents ≤ s.installedEvents := by
  unfold installedEvents
  rw [h.conn]
  cases s.conn with
  | some i => exact h.events i
  | none => exact Nat.le_refl 0

/-- what other tasks do keeps a loop from running more often -/
theorem Fewer.runsLeft_le (h : Fewer s s' n) (hpc : (s'.runs n).pc = (s.runs n).pc) :
    s'.runsLeft n ≤ s.runsLeft n := by
  have hinstalled := h.installed
  unfold runsLeft
  rw [hpc]
  cases (s.runs n).pc with
  | events i => exact h.runs i
  | dispatching i =>
    have := h.events i
    show 2 * s'.eventsOn i + 3 ≤ 2 * s.eventsOn i + 3
    omega
  | onReady i =>
    show 2 * s'.installedEvents + 3 ≤ 2 * s.installedEvents + 3
    omega
  | starting =>
    show 2 * s'.installedEvents + 4 ≤ 2 * s.installedEvents + 4
    omega
  | _ => exact Nat.le_refl _

/-! ## the connections -/

theorem Fewer.setLink {i : Nat} {c c' : Conn} (hl : s.links[i]? = some (.live c))
    (hevents : c'.queued.length ≤ c.queued.length)
    (hleft : c'.runsLeft (inside n) ≤ c.runsLeft (inside n)) :
    Fewer s (s.setLink i (.live c')) n := by
  refine ⟨rfl, fun j => ?_, fun j => ?_⟩
  · by_cases hij : i = j
    · subst hij
      rw [eventsOn_live hl, eventsOn_live (getElem?_setLink_self hl)]
      exact hevents
    · unfold eventsOn
      rw [getElem?_setLink_of_ne _ hij]
  · by_cases hij : i = j
    · subst hij
      rw [runsOn_live hl, runsOn_live (getElem?_setLink_self hl)]
      exact hleft
    · unfold runsOn
      rw [getElem?_setLink_of_ne _ hij]

theorem Fewer.stepLink (ht : Tidy cfg s) (h : Ending s) {i : Nat} {c c' : Conn} {a : Action}
    (hl : s.links[i]? = some (.live c)) (hs : c.step cfg.conn a = some c')
    (ha : ∀ d, a ≠ .wait (inside n) d) : Fewer s (s.setLink i (.live c')) n := by
  have hb := ht.base i c hl
  have hc : c.closed = true := h.closed i _ hl
  exact .setLink hl (Conn.queued_le hb hc hs) (Conn.runsLeft_le hb hc hs ha)

theorem Ending.setLink (h : Ending s) {i : Nat} {c c' : Conn} {a : Action}
    (hl : s.links[i]? = some (.live c)) (hs : c.step cfg.conn a = some c') :
    Ending (s.setLink i (.live c')) := by
  refine ⟨h.stopping, fun j l hj => ?_, h.idle⟩
  by_cases hij : i = j
  · subst hij
    rw [getElem?_setLink_self hl] at hj
    cases hj
    exact Conn.step_closed hs (h.closed i _ hl)
  · rw [getElem?_setLink_of_ne _ hij] at hj
    exact h.closed j l hj

theorem Ending.setRun (h : Ending s) (m : Nat) (pc : RunPc) : Ending (s.setRun m pc) :=
  ⟨h.stopping, h.closed, h.idle⟩

/-! ## a loop goes on -/

theorem runsLeft_setRun_le {m : Nat} {r : Client} {pc : RunPc} (h : Fewer s r n) (hn : n ≠ m)
    (hruns : r.runs n = s.runs n) : (r.setRun m pc).runsLeft n ≤ s.runsLeft n := by
  have hfewer : Fewer s (r.setRun m pc) n := h.congr rfl rfl
  exact hfewer.runsLeft_le (by rw [setRun_of_ne r pc hn, hruns])

theorem runsLeft_finished (s : Client) (n : Nat) : (s.setRun n .finished).runsLeft n = 0 :=
  runsLeft_eq_zero.mpr (by rw [setRun_self]; rfl)

theorem runsLeft_wait (ht : Tidy cfg s) (h : Ending s) {i : Nat} {c c' : Conn}
    (hl : s.links[i]? = some (.live c)) (hs : c.step cfg.conn (.wait (inside n) none) = some c') :
    ((s.setLink i (.live c')).setRun n (.events i)).runsLeft n ≤ 2 * s.eventsOn i + 2 := by
  have hself : ((s.setLink i (.live c')).setRun n (.events i)).links[i]? = some (.live c') :=
    getElem?_setLink_self hl
  unfold runsLeft
  rw [setRun_self]
  show runsOn _ n i ≤ _
  rw [runsOn_live hself, eventsOn_live hl]
  exact Conn.runsLeft_wait (ht.base i c hl) (h.closed i _ hl) hs

/-- **Every run counts.** -/
theorem Segment.runsLeft_lt (ht : Tidy cfg s) (h : Ending s) (hbusy : (s.runs n).pc.free = false)
    {ok : Bool} (hs : Segment cfg s n ok s') : s'.runsLeft n < s.runsLeft n := by
  cases hs with
  | ends =>
    rw [runsLeft_finished]
    refine Nat.pos_of_ne_zero fun hzero => ?_
    rw [runsLeft_eq_zero.mp hzero] at hbusy
    cases hbusy
  | sleeps hstop _ =>
    rw [h.stopping] at hstop
    cases hstop
  | @ready i hpc =>
    unfold runsLeft
    rw [setRun_self, hpc]
    exact Nat.lt_succ_self (2 * s.installedEvents + 3)
  | @handles i c e hpc hl hwait =>
    have hleft : s.runsOn n i = 2 * c.queued.length + 4 := by
      rw [runsOn_live hl, Conn.runsLeft, hwait]
      rfl
    unfold runsLeft
    rw [setRun_self, hpc]
    show 2 * s.eventsOn i + 3 < s.runsOn n i
    rw [eventsOn_live hl, hleft]
    exact Nat.lt_succ_self _
  | @listens i c c' hhead hconn hl hc' =>
    refine Nat.lt_of_le_of_lt (runsLeft_wait ht h hl hc') ?_
    have hinstalled : s.installedEvents = s.eventsOn i := by
      unfold installedEvents
      rw [hconn]
    unfold runsLeft
    rcases hhead h.stopping with hpc | ⟨j, hpc⟩
    · rw [hpc, ← hinstalled]
      exact Nat.lt_add_of_pos_right (n := 2 * s.installedEvents + 2) (k := 2) Nat.two_pos
    · rw [hpc, ← hinstalled]
      exact Nat.lt_succ_self (2 * s.installedEvents + 2)
  | @handled i c c' hpc hl hc' =>
    refine Nat.lt_of_le_of_lt (runsLeft_wait ht h hl hc') ?_
    unfold runsLeft
    rw [hpc]
    exact Nat.lt_succ_self (2 * s.eventsOn i + 2)
  | calls hstop _ =>
    rw [h.stopping] at hstop
    cases hstop

theorem Segment.others (ht : Tidy cfg s) (h : Ending s) {m : Nat} {ok : Bool}
    (hs : Segment cfg s m ok s') :
    Ending s' ∧ ∀ n, n ≠ m → s'.runsLeft n ≤ s.runsLeft n := by
  have hgoes : ∀ pc n, n ≠ m → (s.setRun m pc).runsLeft n ≤ s.runsLeft n := fun pc n hn =>
    runsLeft_setRun_le (Fewer.refl s n) hn rfl
  have hwaits : ∀ {i : Nat} {c c' : Conn}, s.links[i]? = some (.live c) →
      c.step cfg.conn (.wait (inside m) none) = some c' →
      ∀ n, n ≠ m → ((s.setLink i (.live c')).setRun m (.events i)).runsLeft n ≤ s.runsLeft n := by
    intro i c c' hl hc' n hn
    have hne : ∀ d, Action.wait (inside m) none ≠ .wait (inside n) d := fun d he => by
      injection he with he
      exact hn (inside_injective he).symm
    exact runsLeft_setRun_le (Fewer.stepLink ht h hl hc' hne) hn rfl
  cases hs with
  | ends => exact ⟨h.setRun m _, hgoes _⟩
  | sleeps _ _ => exact ⟨h.setRun m _, hgoes _⟩
  | ready _ => exact ⟨h.setRun m _, hgoes _⟩
  | handles _ _ _ => exact ⟨h.setRun m _, hgoes _⟩
  | listens _ _ hl hc' => exact ⟨(h.setLink hl hc').setRun m _, hwaits hl hc'⟩
  | handled _ hl hc' => exact ⟨(h.setLink hl hc').setRun m _, hwaits hl hc'⟩
  | calls hstop _ =>
    rw [h.stopping] at hstop
    cases hstop

/-! ## every step -/

def NoStart : Client → ClientAction → Prop := fun _ a => ∀ n, a ≠ .start n

theorem run_of_stopping (h : s.stopping = true) {onReady : Bool}
    (hs : s.step cfg (.run n onReady) = some s') :
    s' = (s.begin n onReady).setRun n .finished := by
  simp only [step] at hs
  split at hs
  · have hhead : (s.begin n onReady).loopHead cfg n
        = some ((s.begin n onReady).setRun n .finished) := by
      unfold loopHead
      exact if_pos h
    exact Option.some.inj (hs.symm.trans hhead)
  · cases hs

theorem runsLeft_of_finished {m : Nat} {r : Client} (hlinks : r.links = s.links)
    (hconn : r.conn = s.conn) (hruns : ∀ n, n ≠ m → r.runs n = s.runs n) (n : Nat) :
    (r.setRun m .finished).runsLeft n ≤ s.runsLeft n := by
  by_cases hn : n = m
  · subst hn
    rw [runsLeft_finished]
    exact Nat.zero_le _
  · exact runsLeft_setRun_le ((Fewer.refl s n).congr hlinks hconn) hn (hruns n hn)

theorem link_ne_of_idle (h : ∀ o, (s.starts o).free = true) {o : Owner} {i : Nat} :
    (s.starts o).link ≠ some i := by
  intro hi
  have hidle := h o
  rw [StartPc.busy_of_link hi] at hidle
  cases hidle

/-- nobody else's step makes a loop run once more -/
theorem step_others {a : ClientAction} (ht : Tidy cfg s) (h : Ending s) (ha : NoStart s a)
    (hne : ∀ m ok, a ≠ .resumeRun m ok) (hs : s.step cfg a = some s') :
    Ending s' ∧ ∀ n, s'.runsLeft n ≤ s.runsLeft n := by
  -- nobody is inside `start`
  have hnone : ∀ {o i}, (s.starts o).link ≠ some i := link_ne_of_idle h.idle
  have hfactory : ∀ {o}, s.starts o ≠ .factory := fun {o} ho => by
    have hidle := h.idle o
    rw [ho] at hidle
    cases hidle
  cases step_cases hs with
  | @start n _ => exact absurd rfl (ha n)
  | connected hstart => exact absurd hstart hfactory
  | refused hstart => exact absurd hstart hfactory
  | greets hstart _ => exact absurd (congrArg StartPc.link hstart) hnone
  | sends _ hgoes _ => exact absurd hgoes.link.1 hnone
  | returns _ hgoes => exact absurd hgoes.link.1 hnone
  | fails _ _ hfails _ => exact absurd hfails.link hnone
  | raises hstart _ _ => exact absurd (congrArg StartPc.link hstart) hnone
  | @run m onReady _ _ _ _ _ =>
    rw [run_of_stopping h.stopping hs]
    have hruns : ∀ n, n ≠ m → (s.begin m onReady).runs n = s.runs n := fun n hn =>
      Function.update_of_ne hn ..
    exact ⟨⟨h.stopping, h.closed, h.idle⟩, runsLeft_of_finished rfl rfl hruns⟩
  | resumes => exact absurd rfl (hne _ _)
  | @cancelRun m _ =>
    exact ⟨h.setRun m _, runsLeft_of_finished rfl rfl fun _ _ => rfl⟩
  | stops _ _ =>
    refine ⟨⟨rfl, h.closed, h.idle⟩, fun n => ?_⟩
    exact ((Fewer.refl s n).congr rfl rfl).runsLeft_le rfl
  | @closes _ _ i _ c' _ hl _ hc' =>
    have hending := h.setLink hl hc'
    refine ⟨⟨rfl, hending.closed, h.idle⟩, fun n => ?_⟩
    have hlink : Fewer s (s.setLink i (.live c')) n := .stepLink ht h hl hc' nofun
    exact (hlink.congr rfl rfl).runsLeft_le rfl
  | closeReturns _ _ _ =>
    refine ⟨⟨h.stopping, h.closed, h.idle⟩, fun n => ?_⟩
    exact ((Fewer.refl s n).congr rfl rfl).runsLeft_le rfl
  | @link i a c c' hl hout hc' =>
    refine ⟨h.setLink hl hc', fun n => ?_⟩
    exact (Fewer.stepLink ht h hl hc' (wait_ne_of_outside hout n)).runsLeft_le rfl

/-- **A loop that goes on has one run less, and nobody else's step gives it one.** -/
theorem step_ending {a : ClientAction} (ht : Tidy cfg s) (h : Ending s) (ha : NoStart s a)
    (hs : s.step cfg a = some s') :
    Ending s' ∧ ∀ n, s'.runsLeft n + (if a.resumes n then 1 else 0) ≤ s.runsLeft n := by
  cases a with
  | resumeRun m ok =>
    obtain ⟨hsegment, _⟩ := segment_resumeRun hs
    obtain ⟨hending, hle⟩ := hsegment.others ht h
    refine ⟨hending, fun n => ?_⟩
    by_cases hmn : n = m
    · subst hmn
      rw [if_pos (show ClientAction.resumes n (.resumeRun n ok) = true from decide_eq_true rfl)]
      exact hsegment.runsLeft_lt ht h (busy_of_resumeRun hs)
    · have hother : ¬ ClientAction.resumes n (.resumeRun m ok) = true := fun he =>
        hmn (of_decide_eq_true he).symm
      rw [if_neg hother]
      exact hle n hmn
  | _ => exact step_others ht h ha nofun hs

/-! ## a loop can end -/

theorem reach_link {i : Nat} {c c' : Conn} (hl : s.links[i]? = some (.live c))
    (h : Sys.Reach (Conn.step cfg.conn) Conn.Wakes c c') :
    ∃ s', Sys.Reach (step cfg) Unaided s s' ∧ s'.links[i]? = some (.live c') ∧
      s'.runs = s.runs := by
  induction h with
  | init => exact ⟨s, .init, hl, rfl⟩
  | @step c₁ c₂ a _ ha hs ih =>
    obtain ⟨m, rfl⟩ := ha
    obtain ⟨s', hreach, hl', hruns⟩ := ih
    have hstep : s'.step cfg (.link i (.resumeWait m)) = some (s'.setLink i (.live c₂)) := by
      simp only [step, hl', hs]
      rfl
    have hwakes : Unaided s' (.link i (.resumeWait m)) := trivial
    exact ⟨_, hreach.step hwakes hstep, getElem?_setLink_self hl', hruns⟩

theorem exists_nextEvent {i : Nat} {c : Conn} (hl : s.links[i]? = some (.live c))
    (hidle : ¬ c.toFeed.Waiting (inside n)) : ∃ s', s.nextEvent cfg n i = some s' := by
  have hcalls : ∃ c', c.step cfg.conn (.wait (inside n) none) = some c' := Conn.exists_wait hidle
  obtain ⟨c', hc'⟩ := hcalls
  unfold nextEvent
  rw [hl]
  exact ⟨_, congrArg (Option.map _) hc'⟩

theorem exists_listen (h : Sound cfg s) (hpc : ∀ i, (s.runs n).pc ≠ .events i) :
    ∃ s', s.listen cfg n = some s' := by
  unfold listen
  cases hconn : s.conn with
  | none => exact ⟨_, rfl⟩
  | some i =>
    obtain ⟨o, c, hl, _⟩ := h.tidy.installed i hconn
    exact exists_nextEvent hl fun hw => hpc i ((h.loops n).waiting i _ hl hw)

/-- a loop can go on, after the consumers before it -/
theorem exists_resumeRun (h : Sound cfg s) (hend : Ending s) (hbusy : (s.runs n).pc.free = false) :
    ∃ s₁ s₂ ok, Sys.Reach (step cfg) Unaided s s₁ ∧
      s₁.step cfg (.resumeRun n ok) = some s₂ := by
  have hnow : ∀ ok, (∃ s₂, s.resumeRun cfg n ok = some s₂) → ∃ s₁ s₂ ok,
      Sys.Reach (step cfg) Unaided s s₁ ∧ s₁.step cfg (.resumeRun n ok) = some s₂ :=
    fun ok ⟨s₂, hs⟩ => ⟨s, s₂, ok, .init, hs⟩
  cases hpc : (s.runs n).pc with
  | idle =>
    rw [hpc] at hbusy
    cases hbusy
  | finished =>
    rw [hpc] at hbusy
    cases hbusy
  | starting =>
    refine hnow true ?_
    have hidle := hend.idle (.loop n)
    have hcalled := (h.loops n).starting hpc
    unfold resumeRun
    rw [hpc]
    cases hstart : s.starts (.loop n) with
    | idle => exact absurd hstart hcalled
    | returned i =>
      show ∃ s₂, (if (s.runs n).onReady then _ else s.listen cfg n) = some s₂
      split
      · exact ⟨_, rfl⟩
      · exact exists_listen h fun j => by rw [hpc]; nofun
    | raised e =>
      show ∃ s₂, (if e.isCancelled then _ else some (s.lost n)) = some s₂
      split <;> exact ⟨_, rfl⟩
    | _ =>
      rw [hstart] at hidle
      cases hidle
  | onReady i =>
    refine hnow false ?_
    unfold resumeRun
    rw [hpc]
    exact ⟨_, rfl⟩
  | events i =>
    obtain ⟨l, hl, hcalled⟩ := (h.loops n).called i (Or.inl hpc)
    cases l with
    | greeting lines => exact absurd hcalled id
    | live c =>
      have hserved : ∃ c', Sys.Reach (Conn.step cfg.conn) Conn.Wakes c c' ∧
          ∃ o, (c'.waits (inside n)).pc = .finished o :=
        Conn.exists_finished (h.tidy.base i c hl) (hend.closed i _ hl) hcalled
      obtain ⟨c', hreach, o, ho⟩ := hserved
      obtain ⟨s₁, hs₁, hl₁, hruns⟩ := reach_link hl hreach
      have hresume : ∃ s₂, s₁.resumeRun cfg n true = some s₂ := by
        unfold resumeRun
        simp only [hruns, hpc, hl₁, ho]
        cases o <;> exact ⟨_, rfl⟩
      obtain ⟨s₂, hs₂⟩ := hresume
      exact ⟨s₁, s₂, true, hs₁, hs₂⟩
  | dispatching i =>
    refine hnow true ?_
    obtain ⟨l, hl, hcalled⟩ := (h.loops n).called i (Or.inr hpc)
    cases l with
    | greeting lines => exact absurd hcalled id
    | live c =>
      have hidle : ¬ c.toFeed.Waiting (inside n) := fun hw => by
        have hevents := (h.loops n).waiting i _ hl hw
        rw [hpc] at hevents
        cases hevents
      unfold resumeRun
      rw [hpc]
      exact exists_nextEvent hl hidle
  | sleeping =>
    refine hnow true ?_
    unfold resumeRun loopHead
    rw [hpc, if_pos hend.stopping]
    exact ⟨_, rfl⟩

theorem noStart_of_unaided {a : ClientAction} (h : Unaided s a) : NoStart s a := by
  intro n he
  rw [he] at h
  exact h

theorem exists_end (h : Sound cfg s) (hend : Ending s) (n : Nat) :
    ∃ s', Sys.Reach (step cfg) Unaided s s' ∧ (s'.runs n).pc.free = true := by
  have hlower : ∀ r : Client, (Sound cfg r ∧ Ending r) → r.runsLeft n ≠ 0 →
      ∃ r', Sys.Reach (step cfg) Unaided r r' ∧ (Sound cfg r' ∧ Ending r') ∧
        r'.runsLeft n < r.runsLeft n := by
    rintro r ⟨h, hend⟩ hne
    have hbusy : (r.runs n).pc.free = false :=
      Bool.eq_false_iff.mpr fun hfree => hne (runsLeft_eq_zero.mpr hfree)
    obtain ⟨r₁, r₂, ok, hreach, hs⟩ := exists_resumeRun h hend hbusy
    have hwait : (Sound cfg r₁ ∧ Ending r₁) ∧ r₁.runsLeft n ≤ r.runsLeft n :=
      hreach.inv (I := fun t => (Sound cfg t ∧ Ending t) ∧ t.runsLeft n ≤ r.runsLeft n)
        ⟨⟨h, hend⟩, Nat.le_refl _⟩ fun t a t' hi ha hs => by
          obtain ⟨hend', hle⟩ := step_ending hi.1.1.tidy hi.1.2 (noStart_of_unaided ha) hs
          exact ⟨⟨step_sound hi.1.1 hs, hend'⟩,
            (Nat.le_of_add_right_le (hle n)).trans hi.2⟩
    obtain ⟨⟨hsound₁, hend₁⟩, hle₁⟩ := hwait
    obtain ⟨hend₂, hle₂⟩ := step_ending hsound₁.tidy hend₁ (fun m he => by cases he) hs
    have hlast := hle₂ n
    have hself : ClientAction.resumes n (.resumeRun n ok) = true := decide_eq_true rfl
    rw [if_pos hself] at hlast
    have hresumes : Unaided r₁ (.resumeRun n ok) := trivial
    exact ⟨r₂, hreach.step hresumes hs, ⟨step_sound hsound₁ hs, hend₂⟩, by omega⟩
  obtain ⟨s', hreach, _, hzero⟩ :=
    Sys.exists_reach_of_rank (step cfg) (fun r => r.runsLeft n) hlower s ⟨h, hend⟩
  exact ⟨s', hreach, runsLeft_eq_zero.mp hzero⟩

/-! ## from `close` on -/

theorem ending_of_close (h : Settled s) {io : Io} (hs : s.step cfg (.close io) = some s') :
    Ending s' := by
  -- what is not installed is closed
  have hclosed : ∀ (i : Nat) (l : Link), s.conn ≠ some i → s.links[i]? = some l →
      l.closed = true := by
    intro i l hconn hl
    by_contra hopen
    exact hconn (h.installed i ⟨l, hl, Bool.eq_false_iff.mpr hopen⟩)
  cases step_cases hs with
  | stops hconn _ =>
    exact ⟨rfl, fun i l hl => hclosed i l (by rw [hconn]; nofun) hl, h.idle⟩
  | @closes _ _ i _ c' hconn hl _ hc' =>
    refine ⟨rfl, fun j l hj => ?_, h.idle⟩
    have hj : (s.setLink i (.live c')).links[j]? = some l := hj
    by_cases hij : i = j
    · subst hij
      rw [getElem?_setLink_self hl] at hj
      cases hj
      exact closed_of_step hc'
    · rw [getElem?_setLink_of_ne _ hij] at hj
      exact hclosed j l (by rw [hconn]; exact fun e => hij (Option.some.inj e)) hj
  | sends _ hgoes _ => exact absurd hgoes.link.1 (link_ne_of_idle h.idle)
  | returns _ hgoes => exact absurd hgoes.link.1 (link_ne_of_idle h.idle)
  | fails _ _ hfails _ => exact absurd hfails.link (link_ne_of_idle h.idle)

theorem runsLeft_le_eventsLeft (s : Client) (n : Nat) :
    s.runsLeft n ≤ 2 * s.eventsLeft n + 4 := by
  unfold runsLeft eventsLeft
  cases (s.runs n).pc with
  | events i =>
    show s.runsOn n i ≤ 2 * s.eventsOn i + 4
    unfold runsOn eventsOn
    split
    · exact WaitPc.rank_le _ _
    · omega
  | dispatching i => exact Nat.le_succ _
  | onReady i => exact Nat.le_succ _
  | starting => exact Nat.le_refl _
  | sleeping => exact Nat.le_add_left 1 (2 * s.installedEvents + 3)
  | idle => exact Nat.zero_le _
  | finished => exact Nat.zero_le _

/-- **After `close`, `run_forever` ends.**  In every run: if `close` is called while nobody is
inside `start` and nothing but the installed connection is open, and nobody calls `start`
afterwards, then each loop runs at most twice for each event that is queued on its connection, and
four times more; and as long as it has not ended it can go on to its end, without another event,
line or timer than the end of the sleep before a reconnect. -/
theorem close_ends_run_forever {s₀ s₁ : Client} {as : List ClientAction} {io : Io}
    (h : Sys.Reach (step cfg) (fun _ _ => True) {} s₀) (hset : Settled s₀)
    (hs : s₀.step cfg (.close io) = some s₁) (htrace : Sys.Trace (step cfg) NoStart s₁ as s)
    (n : Nat) : EndsRun cfg s₁ as s n := by
  have h₀ : Sound cfg s₀ := h.inv sound_init fun _ _ _ hi _ hs => step_sound hi hs
  have h₁ := step_sound h₀ hs
  have hend₁ := ending_of_close hset hs
  have hkeeps : ∀ s a s', (Sound cfg s ∧ Ending s) → NoStart s a → s.step cfg a = some s' →
      Sound cfg s' ∧ Ending s' := fun s a s' hi ha hs =>
    ⟨step_sound hi.1 hs, (step_ending hi.1.tidy hi.2 ha hs).1⟩
  have hcount := htrace.countP_le (fun s => s.runsLeft n) (ClientAction.resumes n) ⟨h₁, hend₁⟩
    hkeeps fun s a s' hi ha hs => (step_ending hi.1.tidy hi.2 ha hs).2 n
  have hlast := htrace.reach.inv ⟨h₁, hend₁⟩ hkeeps
  have hbound := runsLeft_le_eventsLeft s₁ n
  refine ⟨by omega, fun hbusy => ?_, exists_end hlast.1 hlast.2 n⟩
  have hpos : s.runsLeft n ≠ 0 := fun hzero => by
    rw [runsLeft_eq_zero.mp hzero] at hbusy
    cases hbusy
  omega

/-- where only one task makes connections, it is enough that this one is not inside `start` -/
theorem settled_of_sole {o : Owner} (h : Sys.Reach (step cfg) (Sole o) {} s)
    (hfree : (s.starts o).free = true) : Settled s := by
  have hall := h.inv (I := fun s => Sound cfg s ∧ One o s) ⟨sound_init, one_init o⟩
    fun _ _ _ hi ha hs =>
      ⟨step_sound hi.1 hs, step_one hi.1.tidy hi.1.owned hi.2 ha hs⟩
  refine ⟨fun t => ?_, fun i hi => ?_⟩
  · by_cases hto : t = o
    · rw [hto]
      exact hfree
    · exact hall.2.starts t hto
  · refine (hall.2.held i hi).resolve_right fun hlink => ?_
    rw [StartPc.busy_of_link hlink] at hfree
    cases hfree

def listeningRun : List ClientAction :=
  [.run 0 false, .connected (.loop 0), .greet (.loop 0) (ascii "TS3"),
    .greet (.loop 0) (ascii "Welcome"), .resumeRun 0 true, .link 0 (.recv (ascii "notifyx n=1")),
    .link 0 (.recv (ascii "notifyx n=2"))]

def lastRun : List ClientAction :=
  [.link 0 (.resumeWait 0), .resumeRun 0 true, .resumeRun 0 true, .resumeRun 0 true,
    .resumeRun 0 true, .resumeRun 0 true]

theorem close_ends_run_forever_events :
    ∃ s₀ s₁ s, Sys.run (step {}) {} listeningRun = some s₀ ∧
      s₀.step {} (.close {}) = some s₁ ∧ s₁.eventsLeft 0 = 2 ∧
      Sys.run (step {}) s₁ lastRun = some s ∧ (s.runs 0).pc = .finished ∧
      EndsRun {} s₁ lastRun s 0 := by
  obtain ⟨s₀, hs₀, h⟩ := Sys.exists_reach_of_guard (step {}) (Sole (.loop 0))
    (fun _ a => soleCheck a) {} listeningRun sole_of_check (by decide +kernel)
  have hfree : (s₀.starts (.loop 0)).free = true :=
    Sys.eq_of_run_map (f := fun s : Client => (s.starts (.loop 0)).free) hs₀ (by decide +kernel)
  have hrest : (Sys.run (step {}) {} listeningRun).map (fun s₀ => (s₀.step {} (.close {})).map
      fun s₁ => (s₁.eventsLeft 0, (Sys.run (step {}) s₁ lastRun).map fun s => (s.runs 0).pc))
        = some (some (2, some .finished)) := by decide +kernel
  rw [hs₀, Option.map_some, Option.some.injEq] at hrest
  obtain ⟨s₁, hs₁, hrest⟩ := Option.map_eq_some_iff.mp hrest
  rw [Prod.mk.injEq] at hrest
  obtain ⟨hevents, hrest⟩ := hrest
  obtain ⟨s, hs, hpc⟩ := Option.map_eq_some_iff.mp hrest
  have htrace : Sys.Trace (step {}) NoStart s₁ lastRun s :=
    Sys.trace_of_run (fun a ha _ n he => by
      rw [he] at ha
      simp [lastRun] at ha) hs
  exact ⟨s₀, s₁, s, hs₀, hs₁, hevents, hs, hpc,
    close_ends_run_forever (h.mono fun _ _ _ => trivial) (settled_of_sole h hfree) hs₁ htrace 0⟩

end
end Client
end Atsq
