import Atsq.Client.Called
import Atsq.Connection.Drain

/-!
# From one suspension of a loop to the next

* `Segment`     from one suspension of a `run_forever` to the next, branch by branch;
* `LoopWaits`   a loop waits for events on the connection it iterates, and nowhere else;
* `Sound`       what every run of a client keeps.

Main result: `step_sound`.
-/

namespace Atsq
open Py

def Link.Waiting (n : Nat) : Link → Prop
  | .greeting _ => False
  | .live c => c.toFeed.Waiting (inside n)

def Link.Called (n : Nat) : Link → Prop
  | .greeting _ => False
  | .live c => (c.waits (inside n)).pc ≠ .idle

theorem inside_injective {m n : Nat} (h : inside m = inside n) : m = n := by
  unfold inside at h
  omega

theorem wait_ne_of_outside {a : Action} (h : a.outside = true) (n : Nat) (d : Option ℚ) :
    a ≠ .wait (inside n) d := by
  rintro rfl
  have hodd : (inside n % 2 == 1) = true := h
  rw [inside, Nat.mul_mod_right] at hodd
  cases hodd

/-- what a step of a client is for one connection -/
inductive Link.Goes (cc : Config) (loop : Option Nat) : Link → Link → Prop where
  | stays {l : Link} : Link.Goes cc loop l l
  | steps {c c' : Conn} {b : Action} : c.step cc b = some c' →
      (∀ n d, b = .wait (inside n) d → loop = some n ∧ d = none) →
      Link.Goes cc loop (.live c) (.live c')
  | greets {lines lines' : List Bytes} : Link.Goes cc loop (.greeting lines) (.greeting lines')
  /-- nobody has asked it for events -/
  | begins {lines : List Bytes} {c : Conn} : (∀ m, (c.waits m).pc = .idle) →
      Link.Goes cc loop (.greeting lines) (.live c)

/-- nobody else calls a connection for this loop -/
theorem Link.Goes.waiting {n : Nat} {cc : Config} {loop : Option Nat} {l l' : Link}
    (h : Link.Goes cc loop l l') (hb : ∀ c, l = .live c → c.Base) (hn : loop ≠ some n)
    (hw : l'.Waiting n) : l.Waiting n := by
  cases h with
  | stays => exact hw
  | steps hs hcalls =>
    exact Conn.waiting_of_step (hb _ rfl) hs (fun d he => hn (hcalls n d he).1) hw
  | greets => exact hw
  | begins hidle =>
    obtain ⟨d, hd⟩ := hw
    rw [hidle] at hd
    cases hd

theorem Link.Goes.called {n : Nat} {cc : Config} {loop : Option Nat} {l l' : Link}
    (h : Link.Goes cc loop l l') (hb : ∀ c, l = .live c → c.Base) (hc : l.Called n) :
    l'.Called n := by
  cases h with
  | stays => exact hc
  | steps hs _ => exact Conn.called_of_step (hb _ rfl) hs hc
  | greets => exact hc
  | begins _ => exact absurd hc id

namespace Client

/-- why a loop has lost its connection -/
inductive Loses (s : Client) (n : Nat) (ok : Bool) : Prop where
  | ended {i : Nat} {c : Conn} {o : WaitOutcome} : (s.runs n).pc = .events i →
      s.links[i]? = some (.live c) → (c.waits (inside n)).pc = .finished o → o ≠ .cancelled →
      (∀ e, o ≠ .event e) → Loses s n ok
  | raised {e : StartError} : (s.runs n).pc = .starting → s.starts (.loop n) = .raised e →
      e.isCancelled = false → Loses s n ok
  | notReady {i : Nat} : (s.runs n).pc = .onReady i → ok = false → Loses s n ok
  | noConn : s.conn = none → Loses s n ok

/-- what a loop does when it goes on -/
inductive Segment (cfg : ClientConfig) (s : Client) (n : Nat) (ok : Bool) : Client → Prop where
  | ends : Segment cfg s n ok (s.setRun n .finished)
  | sleeps : s.stopping = false → Loses s n ok → Segment cfg s n ok (s.setRun n .sleeping)
  | ready {i : Nat} : (s.runs n).pc = .starting → Segment cfg s n ok (s.setRun n (.onReady i))
  | handles {i : Nat} {c : Conn} {e : Event} : (s.runs n).pc = .events i →
      s.links[i]? = some (.live c) → (c.waits (inside n)).pc = .finished (.event e) →
      Segment cfg s n ok (s.setRun n (.dispatching i))
  /-- from the head of the loop only if `close` was not called -/
  | listens {i : Nat} {c c' : Conn} :
      (s.stopping = true → (s.runs n).pc = .starting ∨ ∃ j, (s.runs n).pc = .onReady j) →
      s.conn = some i → s.links[i]? = some (.live c) →
      c.step cfg.conn (.wait (inside n) none) = some c' →
      Segment cfg s n ok ((s.setLink i (.live c')).setRun n (.events i))
  | handled {i : Nat} {c c' : Conn} : (s.runs n).pc = .dispatching i →
      s.links[i]? = some (.live c) → c.step cfg.conn (.wait (inside n) none) = some c' →
      Segment cfg s n ok ((s.setLink i (.live c')).setRun n (.events i))
  | calls : s.stopping = false → (s.runs n).pc = .sleeping ∨ (s.runs n).pc = .idle →
      Segment cfg s n ok ((s.setStart (.loop n) .factory).setRun n .starting)

def Served (s : Client) (n i : Nat) : Prop :=
  ∃ (c : Conn) (o : WaitOutcome), s.links[i]? = some (.live c) ∧
    (c.waits (inside n)).pc = .finished o

/-- a loop waits for events on the connection it iterates, and nowhere else -/
structure LoopWaits (s : Client) (n : Nat) : Prop where
  waiting : ∀ (i : Nat) (l : Link), s.links[i]? = some l → l.Waiting n → (s.runs n).pc = .events i
  called : ∀ i, (s.runs n).pc = .events i ∨ (s.runs n).pc = .dispatching i →
    ∃ l, s.links[i]? = some l ∧ l.Called n
  starting : (s.runs n).pc = .starting → s.starts (.loop n) ≠ .idle

/-- the connections after a step; only the loop that goes on calls one for events, without a
timeout -/
structure LinksGo (cc : Config) (s s' : Client) (loop : Option Nat) : Prop where
  old : ∀ (i : Nat) (l : Link), s.links[i]? = some l →
    ∃ l', s'.links[i]? = some l' ∧ Link.Goes cc loop l l'
  new : ∀ (i : Nat) (l' : Link), s'.links[i]? = some l' →
    (∃ l, s.links[i]? = some l) ∨ l' = .greeting []

section
variable {cfg : ClientConfig} {s s' : Client} {n : Nat}

theorem segment_lost {ok : Bool} (h : Loses s n ok) : Segment cfg s n ok (s.lost n) := by
  unfold lost
  cases hstop : s.stopping with
  | true => exact .ends
  | false => exact .sleeps hstop h

theorem segment_listen {ok : Bool}
    (h : s.stopping = true → (s.runs n).pc = .starting ∨ ∃ j, (s.runs n).pc = .onReady j)
    (hs : s.listen cfg n = some s') : Segment cfg s n ok s' := by
  unfold listen at hs
  split at hs
  · rename_i i hconn
    unfold nextEvent at hs
    split at hs
    · rename_i c hl
      obtain ⟨c', hc', rfl⟩ := Option.map_eq_some_iff.mp hs
      exact .listens h hconn hl hc'
    · cases hs
  · rename_i hconn
    cases hs
    exact segment_lost (.noConn hconn)

theorem segment_loopHead {ok : Bool} (h : (s.runs n).pc = .sleeping ∨ (s.runs n).pc = .idle)
    (hs : s.loopHead cfg n = some s') : Segment cfg s n ok s' := by
  unfold loopHead at hs
  split at hs
  · cases hs
    exact .ends
  · rename_i hstop
    split at hs
    · exact segment_listen (fun h => absurd h hstop) hs
    · cases hs
      exact .calls (Bool.eq_false_iff.mpr hstop) h

theorem segment_resumeRun {ok : Bool} (hs : s.resumeRun cfg n ok = some s') :
    Segment cfg s n ok s' ∧ ∀ i, (s.runs n).pc = .events i → Served s n i := by
  unfold resumeRun at hs
  split at hs
  · rename_i hpc
    refine ⟨?_, fun i hi => by rw [hpc] at hi; cases hi⟩
    split at hs
    · split at hs
      · cases hs
        exact .ready hpc
      · exact segment_listen (fun _ => Or.inl hpc) hs
    · rename_i e hstart
      split at hs <;> cases hs
      · exact .ends
      · rename_i he
        exact segment_lost (.raised hpc hstart (Bool.eq_false_iff.mpr he))
    · cases hs
  · rename_i j hpc
    refine ⟨?_, fun i hi => by rw [hpc] at hi; cases hi⟩
    split at hs
    · exact segment_listen (fun _ => Or.inr ⟨j, hpc⟩) hs
    · rename_i hok
      cases hs
      exact segment_lost (.notReady hpc (Bool.eq_false_iff.mpr hok))
  · rename_i j hpc
    split at hs
    · rename_i c hl
      have hserved : ∀ {o}, (c.waits (inside n)).pc = .finished o →
          ∀ i, (s.runs n).pc = .events i → Served s n i := by
        intro o ho i hi
        rw [hpc] at hi
        cases hi
        exact ⟨c, o, hl, ho⟩
      split at hs
      · rename_i e hwait
        cases hs
        exact ⟨.handles hpc hl hwait, hserved hwait⟩
      · rename_i hwait
        cases hs
        exact ⟨.ends, hserved hwait⟩
      · rename_i o hevent hcancelled hwait
        cases hs
        exact ⟨segment_lost (.ended hpc hl hwait hcancelled hevent), hserved hwait⟩
      · cases hs
    · cases hs
  · rename_i j hpc
    refine ⟨?_, fun i hi => by rw [hpc] at hi; cases hi⟩
    unfold nextEvent at hs
    split at hs
    · rename_i c hl
      obtain ⟨c', hc', rfl⟩ := Option.map_eq_some_iff.mp hs
      exact .handled hpc hl hc'
    · cases hs
  · rename_i hpc
    exact ⟨segment_loopHead (Or.inl hpc) hs, fun i hi => by rw [hpc] at hi; cases hi⟩
  · cases hs

/-- nobody has asked a connection for events whose `start` fails in the greeting -/
theorem unstarted_events {cc : Config} {lost : Bool} {k : Nat} {io : Io} {c' : Conn}
    (hs : (Conn.unstarted cc lost).step cc (.close k io) = some c') :
    (∀ m, (c'.waits m).pc = .idle) ∧ c'.deliveredEvents = [] := by
  cases hs
  obtain ⟨drain, waits⟩ := io
  cases lost <;> cases drain <;> cases waits <;> exact ⟨fun _ => rfl, rfl⟩

/-! ## the connections -/

theorem LinksGo.of_eq {cc : Config} {loop : Option Nat} (h : s'.links = s.links) :
    LinksGo cc s s' loop := by
  refine ⟨fun i l hl => ⟨l, ?_, .stays⟩, fun i l hl => Or.inl ⟨l, ?_⟩⟩
  · rw [h]
    exact hl
  · rw [← h]
    exact hl

theorem LinksGo.congr {cc : Config} {loop : Option Nat} {r : Client} (h : LinksGo cc s r loop)
    (hlinks : s'.links = r.links) : LinksGo cc s s' loop := by
  refine ⟨fun i l hl => ?_, fun i l hl => h.new i l (hlinks ▸ hl)⟩
  rw [hlinks]
  exact h.old i l hl

theorem LinksGo.setLink {cc : Config} {loop : Option Nat} {i : Nat} {l l' : Link}
    (hl : s.links[i]? = some l) (hg : Link.Goes cc loop l l') :
    LinksGo cc s (s.setLink i l') loop := by
  refine ⟨fun j m hm => ?_, fun j m hm => ?_⟩
  · by_cases hij : i = j
    · subst hij
      rw [hl] at hm
      cases hm
      exact ⟨l', getElem?_setLink_self hl, hg⟩
    · exact ⟨m, (getElem?_setLink_of_ne _ hij).trans hm, .stays⟩
  · by_cases hij : i = j
    · subst hij
      exact Or.inl ⟨l, hl⟩
    · rw [getElem?_setLink_of_ne _ hij] at hm
      exact Or.inl ⟨m, hm⟩

theorem LinksGo.loop {m : Nat} {pc : RunPc} (hs : LoopEffect cfg s m pc s') :
    LinksGo cfg.conn s s' (some m) := by
  cases hs with
  | stays => exact .of_eq rfl
  | waits hl hc' =>
    refine (LinksGo.setLink hl (.steps hc' fun k d he => ?_)).congr rfl
    injection he with hk hd
    exact ⟨congrArg some (inside_injective hk), hd.symm⟩
  | calls => exact .of_eq rfl

theorem GoesOn.goes {loop : Option Nat} {i : Nat} {c : Conn} {rest : List Setup}
    (ht : Tidy cfg s) {o : Owner} (hgoes : GoesOn cfg s o i c rest) :
    ∃ l, s.links[i]? = some l ∧ Link.Goes cfg.conn loop l (.live c) ∧
      ∀ c' b, c.step cfg.conn b = some c' → b.consumer = none →
        Link.Goes cfg.conn loop l (.live c') := by
  have hb := (ht.goesOn hgoes).1
  have hcalls : ∀ {b : Action}, b.consumer = none → ∀ n d, b = .wait (inside n) d →
      loop = some n ∧ d = none := by
    rintro b hnone n d rfl
    cases hnone
  cases hgoes with
  | greeted _ hl hc _ =>
    subst hc
    refine ⟨_, hl, .begins fun _ => rfl, fun c' b hs hnone => .begins fun m => ?_⟩
    rcases Conn.moved_of_step hb hs m with ⟨hm, _⟩ | hsame
    · rw [hnone] at hm
      cases hm
    · exact hsame
  | answered _ hl _ _ =>
    exact ⟨_, hl, .stays, fun c' b hs hnone => .steps hs (hcalls hnone)⟩

/-- **What a step is for the connections.** -/
theorem step_linksGo {a : ClientAction} (ht : Tidy cfg s) (hs : s.step cfg a = some s') :
    LinksGo cfg.conn s s' a.loop := by
  cases step_cases hs with
  | start _ => exact .of_eq rfl
  | connected _ =>
    refine ⟨fun i l hl => ⟨l, ?_, .stays⟩, fun i l hl => ?_⟩
    · exact (List.getElem?_append_left (lt_of_getElem?_eq_some hl)).trans hl
    · have hl : (s.links ++ [Link.greeting []])[i]? = some l := hl
      rcases Nat.lt_or_ge i s.links.length with hlt | hge
      · exact Or.inl ⟨l, (List.getElem?_append_left hlt).symm.trans hl⟩
      · rw [List.getElem?_append_right hge] at hl
        exact Or.inr (List.mem_singleton.mp (List.mem_of_getElem? hl))
  | refused _ => exact .of_eq rfl
  | greets _ hl => exact .setLink hl .greets
  | sends hloop hgoes hc' =>
    obtain ⟨l, hl, _, hstep⟩ := hgoes.goes ht
    exact (LinksGo.setLink hl (hstep _ _ hc' rfl)).congr rfl
  | returns hloop hgoes =>
    obtain ⟨l, hl, hgoes, _⟩ := hgoes.goes ht
    exact (LinksGo.setLink hl hgoes).congr rfl
  | @fails _ o i l _ _ c' hloop hl _ hc' =>
    have hgoes : Link.Goes cfg.conn a.loop l (.live c') := by
      cases l with
      | live c => exact .steps hc' nofun
      | greeting lines => exact .begins (unstarted_events hc').1
    exact (LinksGo.setLink hl hgoes).congr rfl
  | raises _ _ _ => exact .of_eq rfl
  | run _ _ hloop =>
    have hlinks := LinksGo.loop hloop
    exact ⟨hlinks.old, hlinks.new⟩
  | resumes _ _ hloop => exact .loop hloop
  | cancelRun _ => exact .of_eq rfl
  | stops _ _ => exact .of_eq rfl
  | closes _ hl _ hc' => exact (LinksGo.setLink hl (.steps hc' nofun)).congr rfl
  | closeReturns _ _ _ => exact .of_eq rfl
  | link hl hout hc' =>
    exact .setLink hl (.steps hc' fun n d he => absurd he (wait_ne_of_outside hout n d))

/-! ## every step -/

theorem setRun_self (s : Client) (n : Nat) (pc : RunPc) : ((s.setRun n pc).runs n).pc = pc := by
  show (Function.update s.runs n { s.runs n with pc := pc } n).pc = pc
  rw [Function.update_self]

theorem begin_pc (s : Client) (n : Nat) (onReady : Bool) :
    ((s.begin n onReady).runs n).pc = .idle := by
  show (Function.update s.runs n { onReady := onReady } n).pc = .idle
  rw [Function.update_self]

theorem setRun_of_ne (s : Client) {m n : Nat} (pc : RunPc) (h : n ≠ m) :
    (s.setRun m pc).runs n = s.runs n := Function.update_of_ne h ..

theorem Segment.loopWaits (ht : Tidy cfg s)
    (hidle : ∀ (i : Nat) (l : Link), s.links[i]? = some l → ¬ l.Waiting n)
    (hcalled : ∀ i, (s.runs n).pc = .events i → ∃ l, s.links[i]? = some l ∧ l.Called n)
    {ok : Bool} (hs : Segment cfg s n ok s') : LoopWaits s' n := by
  have hgoes : ∀ pc : RunPc, pc ≠ .starting → (∀ i, pc ≠ .events i) →
      (∀ i, pc = .dispatching i → (s.runs n).pc = .events i) → LoopWaits (s.setRun n pc) n := by
    intro pc hstart hevents hdispatch
    refine ⟨fun i l hl hw => absurd hw (hidle i l hl), fun i hi => ?_, fun hpc => ?_⟩
    · rw [setRun_self] at hi
      exact hcalled i (hdispatch i (hi.resolve_left (hevents i)))
    · rw [setRun_self] at hpc
      exact absurd hpc hstart
  have hwaits : ∀ {i : Nat} {c c' : Conn}, s.links[i]? = some (.live c) →
      c.step cfg.conn (.wait (inside n) none) = some c' →
      LoopWaits ((s.setLink i (.live c')).setRun n (.events i)) n := by
    intro i c c' hl hc'
    refine ⟨fun j l hj hw => ?_, fun j hj => ?_, fun hpc => ?_⟩
    · by_cases hij : i = j
      · rw [setRun_self, hij]
      · have hj : (s.setLink i (.live c')).links[j]? = some l := hj
        rw [getElem?_setLink_of_ne _ hij] at hj
        exact absurd hw (hidle j l hj)
    · rw [setRun_self] at hj
      rcases hj with hj | hj <;> cases hj
      exact ⟨.live c', getElem?_setLink_self hl, Conn.called_of_wait (ht.base i c hl) hc'⟩
    · rw [setRun_self] at hpc
      cases hpc
  cases hs with
  | ends => exact hgoes _ nofun nofun nofun
  | sleeps _ _ => exact hgoes _ nofun nofun nofun
  | ready _ => exact hgoes _ nofun nofun nofun
  | handles hpc _ _ =>
    refine hgoes _ nofun nofun fun j hj => ?_
    cases hj
    exact hpc
  | listens _ _ hl hc' => exact hwaits hl hc'
  | handled _ hl hc' => exact hwaits hl hc'
  | calls _ _ =>
    refine ⟨fun i l hl hw => absurd hw (hidle i l hl), fun i hi => ?_, fun _ hstart => ?_⟩
    · rw [setRun_self] at hi
      rcases hi with hi | hi <;> cases hi
    · have hfactory : Function.update s.starts (.loop n) StartPc.factory (.loop n) = .idle := hstart
      rw [Function.update_self] at hfactory
      cases hfactory

theorem StartMove.ne_idle {a : ClientAction} {o : Owner} (h : StartMove s s' a o)
    (ho : s.starts o ≠ .idle) : s'.starts o ≠ .idle := by
  intro hidle
  cases h with
  | still hsame => exact ho (hsame ▸ hidle)
  | calls _ hsame _ => cases hsame.symm.trans hidle
  | connects _ _ hsame _ => cases hsame.symm.trans hidle
  | refused _ _ _ hsame _ => cases hsame.symm.trans hidle
  | goesOn _ hlink =>
    rw [hidle] at hlink
    cases hlink
  | returns _ hsame _ => cases hsame.symm.trans hidle
  | raises _ _ hsame _ _ => cases hsame.symm.trans hidle

/-- **Every step keeps the loops where they wait.** -/
theorem step_loopWaits {a : ClientAction} (ht : Tidy cfg s) (hown : Owned s)
    (h : ∀ n, LoopWaits s n) (hs : s.step cfg a = some s') (n : Nat) : LoopWaits s' n := by
  by_cases ha : a.loop = some n
  · cases a with
    | run m onReady =>
      cases ha
      simp only [step] at hs
      split at hs
      · rename_i hfree
        have htidy : Keeps cfg s (s.begin n onReady) := ht.frame rfl rfl fun _ => Or.inl rfl
        have hsegment : Segment cfg (s.begin n onReady) n true s' :=
          segment_loopHead (Or.inr (begin_pc s n onReady)) hs
        refine hsegment.loopWaits htidy.tidy (fun i l hl hw => ?_) fun i hi => ?_
        · rw [(h n).waiting i l hl hw] at hfree
          cases hfree
        · rw [begin_pc] at hi
          cases hi
      · cases hs
    | resumeRun m ok =>
      cases ha
      obtain ⟨hsegment, hserved⟩ := segment_resumeRun hs
      refine hsegment.loopWaits ht (fun i l hl hw => ?_) fun i hi => (h n).called i (Or.inl hi)
      obtain ⟨c, o, hc, hpc⟩ := hserved i ((h n).waiting i l hl hw)
      rw [hl] at hc
      cases hc
      obtain ⟨d, hd⟩ := hw
      rw [hpc] at hd
      cases hd
    | cancelRun m =>
      cases ha
      obtain ⟨hpc, _, rfl⟩ := cancelRun_cases hs
      have hsegment : Segment cfg s n true (s.setRun n .finished) := .ends
      refine hsegment.loopWaits ht (fun i l hl hw => ?_) fun i hi => absurd hi (hpc i)
      exact hpc i ((h n).waiting i l hl hw)
    | _ => cases ha
  · have hmoves := step_moves hown hs
    have hruns := hmoves.runs n ha
    have hlinks := step_linksGo ht hs
    have hbase : ∀ {i : Nat} {l : Link}, s.links[i]? = some l → ∀ c, l = .live c → c.Base :=
      fun {i _} hl c he => ht.base i c (he ▸ hl)
    refine ⟨fun i l' hl' hw => ?_, fun i hi => ?_, fun hpc => ?_⟩
    · rcases hlinks.new i l' hl' with ⟨l, hl⟩ | rfl
      · obtain ⟨m, hm, hgoes⟩ := hlinks.old i l hl
        rw [hl'] at hm
        cases hm
        rw [hruns]
        exact (h n).waiting i l hl (hgoes.waiting (hbase hl) ha hw)
      · exact absurd hw id
    · rw [hruns] at hi
      obtain ⟨l, hl, hc⟩ := (h n).called i hi
      obtain ⟨l', hl', hgoes⟩ := hlinks.old i l hl
      exact ⟨l', hl', hgoes.called (hbase hl) hc⟩
    · rw [hruns] at hpc
      have hstart := (h n).starting hpc
      exact (hmoves.starts (.loop n)).ne_idle hstart

/-- what every run keeps -/
structure Sound (cfg : ClientConfig) (s : Client) : Prop where
  tidy : Tidy cfg s
  owned : Owned s
  loops : ∀ n, LoopWaits s n

theorem step_sound {a : ClientAction} (h : Sound cfg s) (hs : s.step cfg a = some s') :
    Sound cfg s' :=
  ⟨(step_keeps h.tidy hs).tidy, (step_moves h.owned hs).owned,
    step_loopWaits h.tidy h.owned h.loops hs⟩

theorem sound_init : Sound cfg {} := by
  refine ⟨tidy_init, owned_init, fun n => ⟨fun i l hl => ?_, fun i hpc => ?_, fun hpc => ?_⟩⟩
  · cases hl
  · rcases hpc with hpc | hpc <;> cases hpc
  · cases hpc

end
end Client
end Atsq
