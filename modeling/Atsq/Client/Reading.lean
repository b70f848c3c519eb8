import Atsq.Client.Dispatch
import Atsq.Client.Segment
import Atsq.Client.Solo

/-!
# One loop reads all events

A client whose connections are made and read by one `run_forever` only.

* `Link.Deals`   a step of a connection: the loop takes an event, or none is taken;
* `Reading`      the loop reads the newest connection, and nobody else reads any;
* `Flow`         what a step does to the events that were taken, and to the one the loop has got.

Main result: `step_flow`.
-/

namespace Atsq
open Py

def WaitPc.event? : WaitPc → Option Event
  | .finished (.event e) => some e
  | _ => none

namespace Conn

section
variable {cfg : Config} {s s' : Conn} {a : Action}

theorem deliveredEvents_of_step (hb : Base s) (hs : s.step cfg a = some s') :
    (∃ m e, a.consumer = some m ∧ (s'.waits m).pc = .finished (.event e) ∧
      s'.deliveredEvents = s.deliveredEvents ++ [e]) ∨
    ((∀ m, a.consumer = some m → (s'.waits m).pc.event? = none) ∧
      s'.deliveredEvents = s.deliveredEvents) := by
  rcases (step_effect hb.tasks hs).step_feed with ⟨hf, ha⟩ | ⟨fa, hf, ha⟩
  · refine Or.inr ⟨fun m hm => ?_, by rw [hf]⟩
    rw [ha] at hm
    cases hm
  · have hdelivers := Feed.step_delivers hb.ledger hf
    have hnil : ∀ {x : Fate × Event}, s.removed ≠ s.removed ++ [x] := fun {x} hr => by
      have hlen := congrArg List.length hr
      rw [List.length_append, List.length_singleton] at hlen
      omega
    have hother : (∀ e, s'.removed ≠ s.removed ++ [(Fate.delivered, e)]) →
        ∀ m, a.consumer = some m → (s'.waits m).pc.event? = none := by
      intro hne m hm
      unfold WaitPc.event?
      split
      · rename_i e hpc
        exact absurd ((hdelivers e).mp ⟨m, ha.trans hm, hpc⟩) (hne e)
      · rfl
    rcases Feed.step_removed hb.ledger hf with hr | ⟨e, hr, _⟩ | ⟨e, hr, _⟩
    · refine Or.inr ⟨hother fun e he => hnil (hr.symm.trans he), ?_⟩
      unfold Feed.deliveredEvents
      rw [hr]
    · obtain ⟨m, hm, hpc⟩ := (hdelivers e).mpr hr
      refine Or.inl ⟨m, e, ha.symm.trans hm, hpc, ?_⟩
      unfold Feed.deliveredEvents
      rw [hr, List.filter_append, List.map_append]
      rfl
    · refine Or.inr ⟨hother fun e' he => ?_, ?_⟩
      · cases List.append_cancel_left (hr.symm.trans he)
      · unfold Feed.deliveredEvents
        rw [hr, List.filter_append, List.map_append]
        exact List.append_nil _

end
end Conn

def Link.taken : Link → List Event
  | .greeting _ => []
  | .live c => c.deliveredEvents

/-- the event that the loop `n` has got from it -/
def Link.event? (n : Nat) : Link → Option Event
  | .greeting _ => none
  | .live c => (c.waits (inside n)).pc.event?

/-- nobody but the loop `n` waits for its events -/
def Link.Only (n : Nat) : Link → Prop
  | .greeting _ => True
  | .live c => ∀ m, c.toFeed.Waiting m → m = inside n

/-- the loop takes an event, or none is taken -/
inductive Link.Deals (n : Nat) (l l' : Link) : Prop where
  | takes {e : Event} : l'.taken = l.taken ++ [e] → l.event? n = none → l'.event? n = some e →
      Link.Deals n l l'
  | keeps : l'.taken = l.taken → l'.event? n = l.event? n → Link.Deals n l l'

section
variable {cfg : Config} {c c' : Conn} {a : Action} {n : Nat}

theorem event?_of_waiting (h : c.toFeed.Waiting (inside n)) : (Link.live c).event? n = none := by
  obtain ⟨d, hd⟩ := h
  show (c.waits (inside n)).pc.event? = none
  rw [hd]
  rfl

/-- a connection goes on, nobody calling it for events; only the loop that waits can take one -/
theorem deals_of_step (hb : c.Base) (honly : (Link.live c).Only n) (ha : ∀ m d, a ≠ .wait m d)
    (hs : c.step cfg a = some c') :
    (Link.live c').Only n ∧ Link.Deals n (.live c) (.live c') ∧
      ((Link.live c').taken = c.deliveredEvents ∨ c.toFeed.Waiting (inside n)) := by
  have honly' : (Link.live c').Only n := fun m hm =>
    honly m (Conn.waiting_of_step hb hs (ha m) hm)
  have hwaiting : ∀ {m}, a.consumer = some m → c.toFeed.Waiting m := fun {m} hm =>
    Conn.getting_of_consumer hs hm (ha m)
  rcases Conn.deliveredEvents_of_step hb hs with ⟨m, e, hm, hpc, hd⟩ | ⟨hnone, hd⟩
  · have hmn := honly m (hwaiting hm)
    subst hmn
    refine ⟨honly', .takes hd (event?_of_waiting (hwaiting hm)) ?_, Or.inr (hwaiting hm)⟩
    show (c'.waits (inside n)).pc.event? = some e
    rw [hpc]
    rfl
  · refine ⟨honly', .keeps hd ?_, Or.inl hd⟩
    rcases Conn.moved_of_step hb hs (inside n) with ⟨hm, _⟩ | hpc
    · exact (hnone _ hm).trans (event?_of_waiting (hwaiting hm)).symm
    · show (c'.waits (inside n)).pc.event? = (c.waits (inside n)).pc.event?
      rw [hpc]

theorem deals_of_wait (hb : c.Base) (honly : (Link.live c).Only n)
    (hs : c.step cfg (.wait (inside n) none) = some c') :
    (Link.live c').Only n ∧
      ((∃ e, (Link.live c').taken = c.deliveredEvents ++ [e] ∧ (Link.live c').event? n = some e) ∨
        (Link.live c').taken = c.deliveredEvents ∧ (Link.live c').event? n = none) := by
  refine ⟨fun m hm => ?_, ?_⟩
  · by_cases hmn : m = inside n
    · exact hmn
    · refine honly m (Conn.waiting_of_step hb hs (fun d he => hmn ?_) hm)
      injection he with he
      exact he.symm
  · rcases Conn.deliveredEvents_of_step hb hs with ⟨m, e, hm, hpc, hd⟩ | ⟨hnone, hd⟩
    · cases hm
      refine Or.inl ⟨e, hd, ?_⟩
      show (c'.waits (inside n)).pc.event? = some e
      rw [hpc]
      rfl
    · exact Or.inr ⟨hd, hnone _ rfl⟩

end

namespace Client

def taken (s : Client) : List Event := s.links.flatMap Link.taken

/-- the loop `n` alone makes connections and waits for events -/
def OnlyLoop (n : Nat) (s : Client) : ClientAction → Prop
  | .start _ => False
  | .run m _ => m = n ∧ (s.runs n).pc = .idle
  | .link _ (.wait _ _) => False
  | _ => True

structure Reading (s : Client) (n : Nat) : Prop where
  reads : ∀ i, (s.runs n).pc = .events i ∨ (s.runs n).pc = .dispatching i → s.conn = some i
  only : ∀ (i : Nat) (l : Link), s.links[i]? = some l → l.Only n
  /-- nothing was taken from a connection that is not installed yet -/
  fresh : ∀ (i : Nat) (l : Link), s.links[i]? = some l → (∀ j, s.conn = some j → j < i) →
    l.taken = []
  last : ∀ i, (s.starts (.loop n)).link = some i → i + 1 = s.links.length
  idle : (s.runs n).pc = .idle → s.links = [] ∧ s.conn = none

/-- the loop gets an event, it hands it to the handlers, or neither -/
inductive Flow (s s' : Client) (n : Nat) (a : ClientAction) : Prop where
  | takes {e : Event} : s'.taken = s.taken ++ [e] → s.eventOf n = none → s'.eventOf n = some e →
      Flow s s' n a
  | hands {e : Event} {ok : Bool} : a = .resumeRun n ok → s.eventOf n = some e →
      s'.taken = s.taken → s'.eventOf n = none → Flow s s' n a
  | keeps : (∀ ok, a = .resumeRun n ok → s.eventOf n = none) → s'.taken = s.taken →
      s'.eventOf n = s.eventOf n → Flow s s' n a

section
variable {cfg : ClientConfig} {s s' : Client} {n : Nat} {a : ClientAction}

theorem OnlyLoop.sole (h : OnlyLoop n s a) : Sole (.loop n) s a := by
  cases a with
  | start m => exact absurd h id
  | run m onReady => exact congrArg Owner.loop h.1.symm
  | _ => exact trivial

theorem eventOf_none (h : ∀ i, (s.runs n).pc ≠ .events i) : s.eventOf n = none := by
  unfold eventOf
  split
  · exact absurd ‹_› (h _)
  · rfl

theorem eventOf_congr {r : Client} (hpc : (r.runs n).pc = (s.runs n).pc)
    (hlink : ∀ j, (s.runs n).pc = .events j → r.links[j]? = s.links[j]?) :
    r.eventOf n = s.eventOf n := by
  unfold eventOf
  rw [hpc]
  cases hruns : (s.runs n).pc with
  | events j => simp only [hlink j hruns]
  | _ => rfl

theorem eventOf_events {i : Nat} {l : Link} (hpc : (s.runs n).pc = .events i)
    (hl : s.links[i]? = some l) : s.eventOf n = l.event? n := by
  unfold eventOf
  rw [hpc]
  cases l with
  | greeting lines => simp only [hl]; rfl
  | live c =>
    simp only [hl]
    unfold Link.event? WaitPc.event?
    rfl

/-- what is taken from one connection is taken last if nothing was taken from those after it -/
theorem taken_setLink {i : Nat} {l l' : Link} {es : List Event} (hl : s.links[i]? = some l)
    (htaken : l'.taken = l.taken ++ es)
    (hlater : es = [] ∨ ∀ (j : Nat) (m : Link), i < j → s.links[j]? = some m → m.taken = []) :
    (s.setLink i l').taken = s.taken ++ es := by
  have hi := lt_of_getElem?_eq_some hl
  have hsplit : s.links = s.links.take i ++ l :: s.links.drop (i + 1) := by
    rw [← (List.getElem?_eq_some_iff.mp hl).2, List.getElem_cons_drop, List.take_append_drop]
  have hset : (s.setLink i l').links = s.links.take i ++ l' :: s.links.drop (i + 1) :=
    List.set_eq_take_append_cons_drop.trans (if_pos hi)
  have hrest : es ++ (s.links.drop (i + 1)).flatMap Link.taken
      = (s.links.drop (i + 1)).flatMap Link.taken ++ es := by
    rcases hlater with rfl | hlater
    · rw [List.nil_append, List.append_nil]
    · have hnil : (s.links.drop (i + 1)).flatMap Link.taken = [] := by
        refine List.flatMap_eq_nil_iff.mpr fun m hm => ?_
        obtain ⟨k, hk⟩ := List.mem_iff_getElem?.mp hm
        rw [List.getElem?_drop] at hk
        exact hlater (i + 1 + k) m (by omega) hk
      rw [hnil, List.nil_append, List.append_nil]
  unfold taken
  rw [hset, List.flatMap_append, List.flatMap_cons, htaken, List.append_assoc, hrest]
  conv_rhs => rw [hsplit, List.flatMap_append, List.flatMap_cons]
  simp only [List.append_assoc]

theorem Flow.congr {r : Client} (h : Flow s r n a) (hlinks : s'.links = r.links)
    (hpc : (s'.runs n).pc = (r.runs n).pc) : Flow s s' n a := by
  have htaken : s'.taken = r.taken := by
    unfold taken
    rw [hlinks]
  have hevent : s'.eventOf n = r.eventOf n := eventOf_congr hpc fun _ _ => by rw [hlinks]
  cases h with
  | takes h1 h2 h3 => exact .takes (htaken.trans h1) h2 (hevent.trans h3)
  | hands ha h1 h2 h3 => exact .hands ha h1 (htaken.trans h2) (hevent.trans h3)
  | keeps ha h1 h2 => exact .keeps ha (htaken.trans h1) (hevent.trans h2)

/-! ## what keeps it -/

theorem Reading.of_installed (h : Reading s n) {i : Nat} (hconn : s.conn = some i) {j : Nat}
    {m : Link} (hij : i < j) (hm : s.links[j]? = some m) : m.taken = [] :=
  h.fresh j m hm fun k hk => by
    rw [hconn] at hk
    cases hk
    exact hij

theorem Reading.congr {r : Client} (h : Reading r n) (hlinks : s'.links = r.links)
    (hconn : s'.conn = r.conn)
    (hreads : ∀ i, (s'.runs n).pc = .events i ∨ (s'.runs n).pc = .dispatching i →
      r.conn = some i)
    (hlast : ∀ i, (s'.starts (.loop n)).link = some i → (r.starts (.loop n)).link = some i)
    (hidle : (s'.runs n).pc = .idle → (r.runs n).pc = .idle) : Reading s' n := by
  refine ⟨fun i hi => hconn.trans (hreads i hi), fun i l hl => h.only i l (hlinks ▸ hl),
    fun i l hl hj => ?_, fun i hi => ?_, fun hpc => ?_⟩
  · exact h.fresh i l (hlinks ▸ hl) fun j hj' => hj j (hconn.trans hj')
  · rw [hlinks]
    exact h.last i (hlast i hi)
  · rw [hlinks, hconn]
    exact h.idle (hidle hpc)

theorem Reading.setLink (h : Reading s n) {i : Nat} {l l' : Link} (hl : s.links[i]? = some l)
    (honly : l'.Only n) (htaken : l'.taken = l.taken ∨ s.conn = some i) :
    Reading (s.setLink i l') n := by
  refine ⟨h.reads, fun j m hm => ?_, fun j m hm hj => ?_, fun j hj => ?_, fun hpc => ?_⟩
  · by_cases hij : i = j
    · subst hij
      rw [getElem?_setLink_self hl] at hm
      cases hm
      exact honly
    · rw [getElem?_setLink_of_ne _ hij] at hm
      exact h.only j m hm
  · by_cases hij : i = j
    · subst hij
      rw [getElem?_setLink_self hl] at hm
      cases hm
      rcases htaken with htaken | hconn
      · rw [htaken]
        exact h.fresh i l hl hj
      · exact absurd (hj i hconn) (Nat.lt_irrefl i)
    · rw [getElem?_setLink_of_ne _ hij] at hm
      exact h.fresh j m hm hj
  · rw [h.last j hj]
    exact List.length_set.symm
  · rw [(h.idle hpc).1] at hl
    cases hl

theorem Flow.setLink (h : Reading s n) {i : Nat} {l l' : Link} (hl : s.links[i]? = some l)
    (hd : Link.Deals n l l') (htaken : l'.taken = l.taken ∨ (s.runs n).pc = .events i)
    (ha : ∀ ok, a ≠ .resumeRun n ok) : Flow s (s.setLink i l') n a := by
  have hself : (s.setLink i l').links[i]? = some l' := getElem?_setLink_self hl
  cases hd with
  | @takes e htake hnone hsome =>
    have hpc := htaken.resolve_left fun hsame => by
      have hlen := congrArg List.length (hsame.symm.trans htake)
      rw [List.length_append, List.length_singleton] at hlen
      omega
    have hconn := h.reads i (Or.inl hpc)
    refine .takes (taken_setLink hl htake (Or.inr fun j m hij hm => ?_))
      ((eventOf_events hpc hl).trans hnone)
      ((eventOf_events (s := s.setLink i l') hpc hself).trans hsome)
    exact h.of_installed hconn hij hm
  | keeps hkeep hevent =>
    refine .keeps (fun ok he => absurd he (ha ok)) ?_ ?_
    · rw [← List.append_nil s.taken]
      exact taken_setLink hl (hkeep.trans (List.append_nil _).symm) (Or.inl rfl)
    · by_cases hpc : (s.runs n).pc = .events i
      · rw [eventOf_events hpc hl, eventOf_events (s := s.setLink i l') hpc hself, hevent]
      · refine eventOf_congr rfl fun j hj => getElem?_setLink_of_ne _ fun hij => ?_
        exact hpc (hij ▸ hj)

theorem Reading.stepLink (h : Reading s n) (hs : Sound cfg s) {i : Nat} {c c' : Conn} {b : Action}
    (hl : s.links[i]? = some (.live c)) (hc : c.step cfg.conn b = some c')
    (hb : ∀ m d, b ≠ .wait m d) (ha : ∀ ok, a ≠ .resumeRun n ok) :
    Reading (s.setLink i (.live c')) n ∧ Flow s (s.setLink i (.live c')) n a := by
  obtain ⟨honly, hdeals, htaken⟩ := deals_of_step (hs.tidy.base i c hl) (h.only i _ hl) hb hc
  have hpc : (Link.live c').taken = (Link.live c).taken ∨ (s.runs n).pc = .events i :=
    htaken.imp id fun hw => (hs.loops n).waiting i _ hl hw
  exact ⟨h.setLink hl honly (hpc.imp id fun hpc => h.reads i (Or.inl hpc)),
    .setLink h hl hdeals hpc ha⟩

/-! ## the loop goes on -/

theorem eventOf_setRun {pc : RunPc} (hpc : ∀ i, pc ≠ .events i) :
    (s.setRun n pc).eventOf n = none := eventOf_none fun i hi => by
  rw [setRun_self] at hi
  exact hpc i hi

theorem Segment.flow (ht : Tidy cfg s) (h : Reading s n) (hnone : s.eventOf n = none) {ok : Bool}
    (hs : Segment cfg s n ok s') : Reading s' n ∧ Flow s s' n a := by
  have hgoes : ∀ pc : RunPc, (∀ i, pc ≠ .events i) → (∀ i, pc ≠ .dispatching i) → pc ≠ .idle →
      Reading (s.setRun n pc) n ∧ Flow s (s.setRun n pc) n a := by
    intro pc hevents hdispatching hidle
    refine ⟨h.congr rfl rfl (fun i hi => ?_) (fun _ => id) fun hpc => ?_,
      .keeps (fun _ _ => hnone) rfl ((eventOf_setRun hevents).trans hnone.symm)⟩
    · rw [setRun_self] at hi
      exact hi.elim (fun hi => absurd hi (hevents i)) fun hi => absurd hi (hdispatching i)
    · rw [setRun_self] at hpc
      exact absurd hpc hidle
  have hwaits : ∀ {i : Nat} {c c' : Conn}, s.conn = some i → s.links[i]? = some (.live c) →
      c.step cfg.conn (.wait (inside n) none) = some c' →
      Reading ((s.setLink i (.live c')).setRun n (.events i)) n ∧
        Flow s ((s.setLink i (.live c')).setRun n (.events i)) n a := by
    intro i c c' hconn hl hc'
    obtain ⟨honly, hdeals⟩ := deals_of_wait (ht.base i c hl) (h.only i _ hl) hc'
    have hlink := h.setLink hl honly (Or.inr hconn)
    have hself : ((s.setLink i (.live c')).setRun n (.events i)).links[i]? = some (.live c') :=
      getElem?_setLink_self hl
    have hevent := eventOf_events (setRun_self (s.setLink i (.live c')) n (.events i)) hself
    refine ⟨hlink.congr rfl rfl (fun j hj => ?_) (fun _ => id) fun hpc => ?_, ?_⟩
    · rw [setRun_self] at hj
      rcases hj with hj | hj <;> cases hj
      exact hconn
    · rw [setRun_self] at hpc
      cases hpc
    · rcases hdeals with ⟨e, htake, hsome⟩ | ⟨hkeep, hnone'⟩
      · refine .takes ?_ hnone (hevent.trans hsome)
        exact taken_setLink hl htake (Or.inr fun j m hij hm => h.of_installed hconn hij hm)
      · refine .keeps (fun _ _ => hnone) ?_ ((hevent.trans hnone').trans hnone.symm)
        rw [← List.append_nil s.taken]
        exact taken_setLink hl (hkeep.trans (List.append_nil _).symm) (Or.inl rfl)
  cases hs with
  | ends => exact hgoes _ nofun nofun nofun
  | sleeps _ _ => exact hgoes _ nofun nofun nofun
  | ready _ => exact hgoes _ nofun nofun nofun
  | @handles i c e hpc hl hwait =>
    rw [eventOf_events hpc hl] at hnone
    have hsome : (c.waits (inside n)).pc.event? = none := hnone
    rw [hwait] at hsome
    cases hsome
  | listens _ hconn hl hc' => exact hwaits hconn hl hc'
  | handled hpc hl hc' => exact hwaits (h.reads _ (Or.inr hpc)) hl hc'
  | calls _ _ =>
    refine ⟨h.congr rfl rfl (fun i hi => ?_) (fun i hi => ?_) fun hpc => ?_,
      .keeps (fun _ _ => hnone) rfl (Eq.trans ?_ hnone.symm)⟩
    · rw [setRun_self] at hi
      rcases hi with hi | hi <;> cases hi
    · have hi : (Function.update s.starts (.loop n) StartPc.factory (.loop n)).link = some i := hi
      rw [Function.update_self] at hi
      cases hi
    · rw [setRun_self] at hpc
      cases hpc
    · exact eventOf_setRun nofun

theorem resumeRun_of_event {e : Event} {ok : Bool} (he : s.eventOf n = some e)
    (hs : s.resumeRun cfg n ok = some s') :
    ∃ i, (s.runs n).pc = .events i ∧ s' = s.setRun n (.dispatching i) := by
  unfold eventOf at he
  split at he
  · rename_i i hpc
    split at he
    · rename_i c hl
      split at he
      · rename_i hwait
        unfold resumeRun at hs
        simp only [hpc, hl, hwait] at hs
        cases hs
        exact ⟨i, hpc, rfl⟩
      · cases he
    · cases he
  · cases he

theorem resumeRun_flow (hsound : Sound cfg s) (h : Reading s n) {ok : Bool}
    (hs : s.resumeRun cfg n ok = some s') :
    Reading s' n ∧ Flow s s' n (.resumeRun n ok) := by
  cases he : s.eventOf n with
  | none => exact (segment_resumeRun hs).1.flow hsound.tidy h he
  | some e =>
    obtain ⟨i, hpc, rfl⟩ := resumeRun_of_event he hs
    refine ⟨h.congr rfl rfl (fun j hj => ?_) (fun _ => id) fun hidle => ?_,
      .hands rfl he rfl (eventOf_setRun nofun)⟩
    · rw [setRun_self] at hj
      rcases hj with hj | hj <;> cases hj
      exact h.reads i (Or.inl hpc)
    · rw [setRun_self] at hidle
      cases hidle

/-! ## every step -/

theorem run_flow (hsound : Sound cfg s) (h : Reading s n) (hpc : (s.runs n).pc = .idle)
    {onReady : Bool} (hs : s.step cfg (.run n onReady) = some s') :
    Reading s' n ∧ Flow s s' n (.run n onReady) := by
  have hidle := begin_pc s n onReady
  have hnone : ∀ r : Client, (r.runs n).pc = .idle → r.eventOf n = none := fun r hr =>
    eventOf_none fun i hi => by
      rw [hr] at hi
      cases hi
  have htidy : Keeps cfg s (s.begin n onReady) := hsound.tidy.frame rfl rfl fun _ => Or.inl rfl
  have hread : Reading (s.begin n onReady) n := by
    refine h.congr rfl rfl (fun i hi => ?_) (fun _ => id) fun _ => hpc
    rw [hidle] at hi
    rcases hi with hi | hi <;> cases hi
  simp only [step] at hs
  split at hs
  · have hsegment : Segment cfg (s.begin n onReady) n true s' :=
      segment_loopHead (Or.inr hidle) hs
    have hboth : Reading s' n ∧ Flow (s.begin n onReady) s' n (.run n onReady) :=
      hsegment.flow htidy.tidy hread (hnone _ hidle)
    refine ⟨hboth.1, ?_⟩
    cases hboth.2 with
    | takes h1 _ h3 => exact .takes h1 (hnone s hpc) h3
    | hands he _ _ _ => cases he
    | keeps _ h1 h2 =>
      exact .keeps (fun ok he => by cases he) h1
        (h2.trans ((hnone _ hidle).trans (hnone s hpc).symm))
  · cases hs

theorem GoesOn.link_same (h : Reading s n) {o : Owner} {i : Nat} {c : Conn} {rest : List Setup}
    (hgoes : GoesOn cfg s o i c rest) : ∃ l, s.links[i]? = some l ∧ (Link.live c).Only n ∧
      (Link.live c).taken = l.taken ∧ (Link.live c).event? n = l.event? n ∧
      (c.toFeed.Waiting (inside n) → l.Waiting n) := by
  cases hgoes with
  | greeted _ hl hc _ =>
    subst hc
    refine ⟨_, hl, fun m hm => ?_, rfl, rfl, fun hw => ?_⟩
    · obtain ⟨d, hd⟩ := hm
      cases hd
    · obtain ⟨d, hd⟩ := hw
      cases hd
  | answered _ hl _ _ => exact ⟨_, hl, h.only i _ hl, rfl, rfl, id⟩

theorem Reading.setStart (hsound : Sound cfg s) (hbusy : (s.starts (.loop n)).free = false)
    {r : Client} (hread : Reading r n) (hflow : Flow s r n a) (hruns : r.runs = s.runs)
    {pc : StartPc} (hlast : ∀ i, pc.link = some i → i + 1 = r.links.length) :
    Reading (r.setStart (.loop n) pc) n ∧ Flow s (r.setStart (.loop n) pc) n a := by
  have hpc : (r.runs n).pc = .starting := by
    rw [hruns]
    exact hsound.owned n hbusy
  refine ⟨⟨hread.reads, hread.only, hread.fresh, fun i hi => ?_, fun hidle => ?_⟩,
    hflow.congr rfl rfl⟩
  · have hi : (Function.update r.starts (.loop n) pc (.loop n)).link = some i := hi
    rw [Function.update_self] at hi
    exact hlast i hi
  · cases hpc.symm.trans hidle

theorem Flow.refl (s : Client) (n : Nat) (ha : ∀ ok, a ≠ .resumeRun n ok) : Flow s s n a :=
  .keeps (fun ok he => absurd he (ha ok)) rfl rfl

theorem ne_resumeRun_of_loop (ha : a.loop = none) (ok : Bool) : a ≠ .resumeRun n ok := by
  rintro rfl
  cases ha

theorem Reading.connected (h : Reading s n) (hstart : s.starts (.loop n) = .factory)
    (hpc : (s.runs n).pc = .starting) (ha : ∀ ok, a ≠ .resumeRun n ok) :
    Reading { s with links := s.links ++ [Link.greeting []] } n ∧
      Flow s { s with links := s.links ++ [Link.greeting []] } n a := by
  have hnew : ∀ {i : Nat} {l : Link}, (s.links ++ [Link.greeting []])[i]? = some l →
      s.links[i]? = some l ∨ l = .greeting [] := by
    intro i l hl
    rcases Nat.lt_or_ge i s.links.length with hlt | hge
    · exact Or.inl ((List.getElem?_append_left hlt).symm.trans hl)
    · rw [List.getElem?_append_right hge] at hl
      exact Or.inr (List.mem_singleton.mp (List.mem_of_getElem? hl))
  refine ⟨⟨h.reads, fun i l hl => ?_, fun i l hl hj => ?_, fun i hi => ?_, fun hidle => ?_⟩, ?_⟩
  · rcases hnew hl with hl | rfl
    · exact h.only i l hl
    · exact trivial
  · rcases hnew hl with hl | rfl
    · exact h.fresh i l hl hj
    · rfl
  · have hi : (s.starts (.loop n)).link = some i := hi
    rw [hstart] at hi
    cases hi
  · cases hpc.symm.trans hidle
  · have hnone : ∀ r : Client, r.runs = s.runs → r.eventOf n = none := fun r hr =>
      eventOf_none fun i hi => by
        rw [hr, hpc] at hi
        cases hi
    refine .keeps (fun ok he => absurd he (ha ok)) ?_ ?_
    · unfold taken
      rw [List.flatMap_append]
      exact List.append_nil _
    · exact Eq.trans (hnone _ rfl) (hnone s rfl).symm

/-- the `start` of the loop made the newest connection -/
theorem Reading.last_setLink (h : Reading s n) {i : Nat} {l : Link} {pc : StartPc}
    (hi : (s.starts (.loop n)).link = some i) (hpc : pc.link = some i ∨ pc.link = none) :
    ∀ j, pc.link = some j → j + 1 = (s.setLink i l).links.length := by
  intro j hj
  rcases hpc with hpc | hpc
  · cases hpc.symm.trans hj
    rw [h.last i hi]
    exact List.length_set.symm
  · rw [hpc] at hj
    cases hj

theorem sends_flow (hsound : Sound cfg s) (h : Reading s n) (hloop : a.loop = none) {i : Nat}
    {c c' : Conn} {x : Setup} {rest : List Setup}
    (hgoes : GoesOn cfg s (.loop n) i c (x :: rest))
    (hc : c.step cfg.conn (.exec (inside (Owner.loop n).slot) x.cmd [] none x.params) = some c') :
    Reading ((s.setLink i (.live c')).setStart (.loop n) (.setup i (x :: rest))) n ∧
      Flow s ((s.setLink i (.live c')).setStart (.loop n) (.setup i (x :: rest))) n a := by
  obtain ⟨ho, _⟩ := hgoes.link
  obtain ⟨l, hl, honly, htaken, hevent, hwaiting⟩ := GoesOn.link_same h hgoes
  have hb := (hsound.tidy.goesOn hgoes).1
  obtain ⟨honly', hdeals, hkeeps⟩ := deals_of_step hb honly (fun m d he => by cases he) hc
  have hpc : (Link.live c').taken = l.taken ∨ (s.runs n).pc = .events i :=
    hkeeps.imp (fun he => he.trans htaken) fun hw => (hsound.loops n).waiting i l hl (hwaiting hw)
  have hdeals' : Link.Deals n l (.live c') := by
    cases hdeals with
    | takes h1 h2 h3 => exact .takes (htaken ▸ h1) (hevent.symm.trans h2) h3
    | keeps h1 h2 => exact .keeps (h1.trans htaken) (h2.trans hevent)
  have hread := h.setLink hl honly' (hpc.imp id fun hpc => h.reads i (Or.inl hpc))
  have hflow := Flow.setLink h hl hdeals' hpc (ne_resumeRun_of_loop hloop)
  exact hread.setStart hsound (StartPc.busy_of_link ho) hflow rfl (h.last_setLink ho (Or.inl rfl))

theorem returns_flow (hsound : Sound cfg s) (h : Reading s n) (hloop : a.loop = none) {i : Nat}
    {c : Conn} (hgoes : GoesOn cfg s (.loop n) i c []) :
    Reading ({ s.setLink i (.live c) with conn := some i }.setStart (.loop n) (.returned i)) n ∧
      Flow s ({ s.setLink i (.live c) with conn := some i }.setStart (.loop n) (.returned i)) n
        a := by
  obtain ⟨ho, _⟩ := hgoes.link
  obtain ⟨l, hl, honly, htaken, hevent, _⟩ := GoesOn.link_same h hgoes
  have hbusy := StartPc.busy_of_link ho
  have hpc := hsound.owned n hbusy
  have hread := h.setLink hl honly (Or.inl htaken)
  have hflow := Flow.setLink h hl (.keeps htaken hevent) (Or.inl htaken)
    (ne_resumeRun_of_loop hloop)
  have hnew : Reading { s.setLink i (.live c) with conn := some i } n := by
    refine ⟨fun j hj => ?_, hread.only, fun j m hm hj => ?_, hread.last, fun hidle => ?_⟩
    · have hj : (s.runs n).pc = .events j ∨ (s.runs n).pc = .dispatching j := hj
      rw [hpc] at hj
      rcases hj with hj | hj <;> cases hj
    · have hlen := hread.last i ho
      have hlt : j < (s.setLink i (.live c)).links.length := lt_of_getElem?_eq_some hm
      have hij := hj i rfl
      omega
    · cases hpc.symm.trans hidle
  exact hnew.setStart hsound hbusy (hflow.congr rfl rfl) rfl fun j hj => by cases hj

theorem fails_flow (hsound : Sound cfg s) (h : Reading s n) (hloop : a.loop = none) {i : Nat}
    {l : Link} {e : StartError} {k : Nat} {io : Io} {c' : Conn} (hl : s.links[i]? = some l)
    (ho : (s.starts (.loop n)).link = some i)
    (hc : (l.conn cfg.conn e.lost).step cfg.conn (.close k io) = some c') :
    Reading ((s.setLink i (.live c')).setStart (.loop n) (.failing i e)) n ∧
      Flow s ((s.setLink i (.live c')).setStart (.loop n) (.failing i e)) n a := by
  have hlink : Reading (s.setLink i (.live c')) n ∧ Flow s (s.setLink i (.live c')) n a := by
    cases l with
    | live c =>
      exact h.stepLink hsound hl hc (fun m d he => by cases he) (ne_resumeRun_of_loop hloop)
    | greeting lines =>
      obtain ⟨hidle, hnone⟩ := unstarted_events hc
      refine ⟨h.setLink hl (fun m hm => ?_) (Or.inl hnone),
        .setLink h hl (.keeps hnone ?_) (Or.inl hnone) (ne_resumeRun_of_loop hloop)⟩
      · obtain ⟨d, hd⟩ := hm
        rw [hidle] at hd
        cases hd
      · show (c'.waits (inside n)).pc.event? = none
        rw [hidle]
        rfl
  exact hlink.1.setStart hsound (StartPc.busy_of_link ho) hlink.2 rfl
    (h.last_setLink ho (Or.inl rfl))

theorem cancelRun_flow (h : Reading s n) (hpc : ∀ i, (s.runs n).pc ≠ .events i) :
    Reading (s.setRun n .finished) n ∧ Flow s (s.setRun n .finished) n (.cancelRun n) := by
  have hgone : (s.setRun n .finished).eventOf n = none := eventOf_setRun nofun
  refine ⟨h.congr rfl rfl (fun i hi => ?_) (fun _ => id) fun hidle => ?_,
    .keeps (fun ok he => by cases he) rfl (hgone.trans (eventOf_none hpc).symm)⟩
  · rw [setRun_self] at hi
    rcases hi with hi | hi <;> cases hi
  · rw [setRun_self] at hidle
    cases hidle

/-- **What a step does to the events.** -/
theorem step_flow (hsound : Sound cfg s) (hone : One (.loop n) s) (h : Reading s n)
    (ha : OnlyLoop n s a) (hs : s.step cfg a = some s') : Reading s' n ∧ Flow s s' n a := by
  -- no other loop is under way
  have hother : ∀ {m : Nat}, (s.runs m).pc.free = false → m = n := fun {m} hbusy => by
    by_contra hmn
    rw [hone.loops m fun e => hmn (Owner.loop.inj e)] at hbusy
    cases hbusy
  cases step_cases hs with
  | start _ => exact absurd ha id
  | @connected o hstart =>
    obtain rfl := hone.eq_of_factory (t := o) (by rw [hstart]; rfl)
    have hbusy : (s.starts (.loop n)).free = false := by rw [hstart]; rfl
    have hnew : _ ∧ Flow s _ n (.connected (.loop n)) :=
      h.connected hstart (hsound.owned n hbusy) fun ok he => by cases he
    refine hnew.1.setStart hsound hbusy hnew.2 rfl fun i hi => ?_
    cases hi
    show s.links.length + 1 = (s.links ++ [Link.greeting []]).length
    rw [List.length_append]
    rfl
  | @refused o e hstart _ =>
    obtain rfl := hone.eq_of_factory (t := o) (by rw [hstart]; rfl)
    have hbusy : (s.starts (.loop n)).free = false := by rw [hstart]; rfl
    exact h.setStart hsound hbusy (Flow.refl s n fun ok he => by cases he) rfl
      fun i hi => by cases hi
  | @greets o i lines line _ hl =>
    exact ⟨h.setLink hl trivial (Or.inl rfl),
      .setLink h hl (.keeps rfl rfl) (Or.inl rfl) fun ok he => by cases he⟩
  | sends hloop hgoes hc' =>
    obtain rfl := hone.eq_of_factory (StartPc.busy_of_link hgoes.link.1)
    exact sends_flow hsound h hloop hgoes hc'
  | returns hloop hgoes =>
    obtain rfl := hone.eq_of_factory (StartPc.busy_of_link hgoes.link.1)
    exact returns_flow hsound h hloop hgoes
  | fails hloop hl hfails hc' =>
    obtain rfl := hone.eq_of_factory (StartPc.busy_of_link hfails.link)
    exact fails_flow hsound h hloop hl hfails.link hc'
  | @raises o i early e c hstart hl _ =>
    have ho : (s.starts o).link = some i := by rw [hstart]; rfl
    obtain rfl := hone.eq_of_factory (StartPc.busy_of_link ho)
    exact h.setStart hsound (StartPc.busy_of_link ho) (Flow.refl s n fun ok he => by cases he) rfl
      fun i hi => by cases hi
  | @run m onReady _ _ _ _ _ =>
    obtain ⟨rfl, hpc⟩ := ha
    exact run_flow hsound h hpc hs
  | resumes _ _ _ =>
    obtain rfl := hother (busy_of_resumeRun hs)
    exact resumeRun_flow hsound h hs
  | cancelRun _ =>
    obtain ⟨hpc, hbusy, _⟩ := cancelRun_cases hs
    obtain rfl := hother hbusy
    exact cancelRun_flow h hpc
  | stops _ _ =>
    exact ⟨h.congr rfl rfl h.reads (fun _ => id) id,
      (Flow.refl s n fun ok he => by cases he).congr rfl rfl⟩
  | @closes io _ i _ c' _ hl _ hc' =>
    have hlink : Reading (s.setLink i (.live c')) n ∧
        Flow s (s.setLink i (.live c')) n (.close io) :=
      h.stepLink hsound hl hc' (fun m d he => by cases he) fun ok he => by cases he
    exact ⟨hlink.1.congr rfl rfl hlink.1.reads (fun _ => id) id, hlink.2.congr rfl rfl⟩
  | closeReturns _ _ _ =>
    exact ⟨h.congr rfl rfl h.reads (fun _ => id) id,
      (Flow.refl s n fun ok he => by cases he).congr rfl rfl⟩
  | link hl _ hc' =>
    refine h.stepLink hsound hl hc' (fun m d he => ?_) fun ok he => by cases he
    rw [he] at ha
    exact ha

theorem reading_init (n : Nat) : Reading {} n := by
  refine ⟨fun i hi => ?_, fun i l hl => ?_, fun i l hl _ => ?_, fun i hi => ?_, fun _ => ⟨rfl, rfl⟩⟩
  · rcases hi with hi | hi <;> cases hi
  · cases hl
  · cases hl
  · cases hi

end
end Client
end Atsq
