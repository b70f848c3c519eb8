import Atsq.Client.Called

/-!
# One connection at a time

A client on which only one task makes connections: one `run_forever`, or one user's task that calls
`start` when it is disconnected.

* `Sole o`     nobody else calls `start` or `run_forever`;
* `One o s`    what is open is the connection that is being set up, or the installed one;
* `OneOpen`    what this says of a client.

Main result: `one_connection`.
-/

namespace Atsq
open Py

theorem StartPc.link_of_free {pc : StartPc} (h : pc.free = true) : pc.link = none := by
  cases pc <;> first | rfl | cases h

namespace Client

/-- only `o` makes connections, a user's task only when there is none -/
def Sole (o : Owner) (s : Client) : ClientAction → Prop
  | .start n => o = .user n ∧ s.connected = false
  | .run n _ => o = .loop n
  | _ => True

def Open (s : Client) (i : Nat) : Prop := ∃ l, s.links[i]? = some l ∧ l.closed = false

structure One (o : Owner) (s : Client) : Prop where
  starts : ∀ t, t ≠ o → (s.starts t).free = true
  loops : ∀ n, Owner.loop n ≠ o → (s.runs n).pc.free = true
  held : ∀ i, Open s i → s.conn = some i ∨ (s.starts o).link = some i
  /-- a `start` under way has found nothing open -/
  alone : (s.starts o).free = false → ∀ i, Open s i → (s.starts o).link = some i

structure OneOpen (cfg : ClientConfig) (o : Owner) (s : Client) : Prop where
  /-- of all connections ever made, one at most is open -/
  unique : ∀ i j, Open s i → Open s j → i = j
  /-- it is the installed one, unless a `start` is setting it up -/
  held : ∀ i, Open s i → s.conn = some i ∨ (s.starts o).link = some i
  connected : (s.starts o).free = true → (s.connected = true ↔ ∃ i, Open s i)
  /-- `close` leaves nothing open unless a `start` is under way -/
  close : ∀ io s', (s.starts o).free = true → s.step cfg (.close io) = some s' →
    ∀ i, ¬ Open s' i

section
variable {cfg : ClientConfig} {o : Owner} {s s' : Client}

theorem connected_iff : s.connected = true ↔ ∃ i, s.conn = some i ∧ Open s i := by
  unfold connected
  constructor
  · intro h
    split at h
    · rename_i l hl
      obtain ⟨i, hi, hl⟩ := Option.bind_eq_some_iff.mp hl
      exact ⟨i, hi, l, hl, by simpa using h⟩
    · cases h
  · rintro ⟨i, hi, l, hl, hc⟩
    rw [hi, Option.bind_some, hl]
    show (!l.closed) = true
    rw [hc]
    rfl

theorem One.none_open (h : One o s) (hfree : (s.starts o).free = true)
    (hconn : s.connected = false) (i : Nat) : ¬ Open s i := by
  intro hi
  rcases h.held i hi with hc | hl
  · rw [connected_iff.mpr ⟨i, hc, hi⟩] at hconn
    cases hconn
  · rw [StartPc.link_of_free hfree] at hl
    cases hl

theorem One.eq_of_factory (h : One o s) {t : Owner} (ht : (s.starts t).free = false) : t = o := by
  by_contra hne
  rw [h.starts t hne] at ht
  cases ht

/-! ## what keeps it -/

theorem open_of_setLink {i j : Nat} {l l' : Link} (hl : s.links[i]? = some l)
    (hc : l.closed = true → l'.closed = true) (h : Open (s.setLink i l') j) : Open s j := by
  obtain ⟨m, hm, hopen⟩ := h
  by_cases hij : i = j
  · subst hij
    rw [getElem?_setLink_self hl] at hm
    cases hm
    refine ⟨l, hl, Bool.eq_false_iff.mpr fun he => ?_⟩
    rw [hc he] at hopen
    cases hopen
  · rw [getElem?_setLink_of_ne _ hij] at hm
    exact ⟨m, hm, hopen⟩

/-- nothing new is open, and only the loop of `o` goes anywhere -/
theorem One.frame (h : One o s) (hstarts : s'.starts = s.starts) (hconn : s'.conn = s.conn)
    (hloops : ∀ n, Owner.loop n ≠ o → (s'.runs n).pc.free = true)
    (hopen : ∀ i, Open s' i → Open s i) : One o s' := by
  refine ⟨fun t ht => ?_, hloops, fun i hi => ?_, fun hbusy i hi => ?_⟩
  · rw [hstarts]
    exact h.starts t ht
  · rw [hstarts, hconn]
    exact h.held i (hopen i hi)
  · rw [hstarts] at hbusy ⊢
    exact h.alone hbusy i (hopen i hi)

theorem One.setLink (h : One o s) {i : Nat} {l m : Link} (hl : s.links[i]? = some l)
    (hc : l.closed = true → m.closed = true) : One o (s.setLink i m) :=
  h.frame rfl rfl h.loops fun _ => open_of_setLink hl hc

theorem One.stepLink (h : One o s) {i : Nat} {c c' : Conn} {a : Action}
    (hl : s.links[i]? = some (.live c)) (hs : c.step cfg.conn a = some c') :
    One o (s.setLink i (.live c')) := h.setLink hl fun hc => Conn.step_closed hs hc

/-- the `start` of `o` goes on, and what is open afterwards is its connection -/
theorem One.setStart (h : One o s) {pc : StartPc} (hopen : ∀ i, Open s i → pc.link = some i) :
    One o (s.setStart o pc) := by
  have hself : (s.setStart o pc).starts o = pc := Function.update_self ..
  refine ⟨fun t ht => ?_, h.loops, fun i hi => Or.inr ?_, fun _ i hi => ?_⟩
  · rw [show (s.setStart o pc).starts t = s.starts t from Function.update_of_ne ht ..]
    exact h.starts t ht
  · rw [hself]
    exact hopen i hi
  · rw [hself]
    exact hopen i hi

theorem One.setRun (h : One o s) (n : Nat) {pc : RunPc}
    (hpc : Owner.loop n ≠ o → pc.free = true) : One o (s.setRun n pc) := by
  refine h.frame rfl rfl (fun m hm => ?_) fun _ => id
  by_cases hmn : m = n
  · subst hmn
    show (Function.update s.runs m { s.runs m with pc := pc } m).pc.free = true
    rw [Function.update_self]
    exact hpc hm
  · show (Function.update s.runs n { s.runs n with pc := pc } m).pc.free = true
    rw [Function.update_of_ne hmn]
    exact h.loops m hm

theorem One.loop (h : One o s) {n : Nat} {pc : RunPc} (hpc : Owner.loop n ≠ o → pc.free = true)
    (hcalls : pc = .starting → Owner.loop n = o → (∀ i, ¬ Open s i))
    (hs : LoopEffect cfg s n pc s') : One o s' := by
  cases hs with
  | stays => exact h.setRun n hpc
  | waits hl hc' => exact (h.stepLink hl hc').setRun n hpc
  | calls =>
    have ho : Owner.loop n = o := by
      by_contra hne
      have := hpc hne
      cases this
    have hnone := hcalls rfl ho
    subst ho
    have hstart : One (.loop n) (s.setStart (.loop n) .factory) :=
      h.setStart fun i hi => absurd hi (hnone i)
    exact hstart.setRun n hpc

theorem One.own (h : One o s) {i : Nat} {m : Link} (ho : (s.starts o).link = some i) {j : Nat}
    (hj : Open (s.setLink i m) j) : j = i := by
  by_contra hne
  obtain ⟨l, hl, hopen⟩ := hj
  rw [getElem?_setLink_of_ne _ (Ne.symm hne)] at hl
  have := h.alone (StartPc.busy_of_link ho) j ⟨l, hl, hopen⟩
  rw [ho] at this
  exact hne (Option.some.inj this).symm

/-- the `start` of `o` is outside of any connection: nothing is open -/
theorem One.none_open_of_busy (h : One o s) (hbusy : (s.starts o).free = false)
    (hlink : (s.starts o).link = none) (i : Nat) : ¬ Open s i := fun hi => by
  have hown := h.alone hbusy i hi
  rw [hlink] at hown
  cases hown

/-! ## every step -/

theorem One.connected (h : One o s) (hstart : s.starts o = .factory) :
    One o ({ s with links := s.links ++ [Link.greeting []] }.setStart o
      (.greeting s.links.length)) := by
  have hold := h.none_open_of_busy (by rw [hstart]; rfl) (by rw [hstart]; rfl)
  have hnew : ∀ i, Open { s with links := s.links ++ [Link.greeting []] } i →
      i = s.links.length := by
    rintro i ⟨l, hl, hc⟩
    rcases Nat.lt_or_ge i s.links.length with hlt | hge
    · exact absurd ⟨l, (List.getElem?_append_left hlt).symm.trans hl, hc⟩ (hold i)
    · have hlt := (List.getElem?_eq_some_iff.mp hl).1
      have hlen : (s.links ++ [Link.greeting []]).length = s.links.length + 1 :=
        List.length_append
      have : i < s.links.length + 1 := hlen ▸ hlt
      omega
  refine ⟨fun u hu => ?_, h.loops, fun i hi => Or.inr ?_, fun _ i hi => ?_⟩
  · show (Function.update s.starts o _ u).free = true
    rw [Function.update_of_ne hu]
    exact h.starts u hu
  · show (Function.update s.starts o _ o).link = some i
    rw [Function.update_self, hnew i hi]
    rfl
  · show (Function.update s.starts o _ o).link = some i
    rw [Function.update_self, hnew i hi]
    rfl

theorem One.returns (h : One o s) {i : Nat} {c : Conn} (ho : (s.starts o).link = some i) :
    One o ({ s.setLink i (.live c) with conn := some i }.setStart o (.returned i)) := by
  refine ⟨fun u hu => ?_, h.loops, fun j hj => Or.inl ?_, fun hbusy => ?_⟩
  · show (Function.update s.starts o _ u).free = true
    rw [Function.update_of_ne hu]
    exact h.starts u hu
  · exact congrArg some (h.own (m := .live c) ho hj).symm
  · exfalso
    have hbusy : (Function.update s.starts o (.returned i) o).free = false := hbusy
    rw [Function.update_self] at hbusy
    cases hbusy

theorem One.raises (ht : Tidy cfg s) (h : One o s) {i : Nat} {early e : StartError}
    (hstart : s.starts o = .failing i early) : One o (s.setStart o (.raised e)) := by
  have ho : (s.starts o).link = some i := by rw [hstart]; rfl
  refine h.setStart fun j hj => ?_
  have hji := h.alone (StartPc.busy_of_link ho) j hj
  rw [ho] at hji
  obtain rfl := Option.some.inj hji
  have hphase := ht.phase o _ ho
  rw [hstart] at hphase
  cases hphase with
  | failing hlink hclosed _ =>
    obtain ⟨m, hm, hopen⟩ := hj
    rw [hlink] at hm
    cases hm
    have hopen : _ = false := hopen
    rw [show (Link.live _).closed = true from hclosed] at hopen
    cases hopen

theorem One.run (hown : Owned s) {n : Nat} {onReady : Bool} {pc : RunPc} (h : One (.loop n) s)
    (hfree : (s.runs n).pc.free = true) (henters : Enters s pc)
    (hloop : LoopEffect cfg (s.begin n onReady) n pc s') : One (.loop n) s' := by
  have hidle : (s.starts (.loop n)).free = true :=
    hown.free fun hpc => by rw [hpc] at hfree; cases hfree
  have hbegin : One (.loop n) (s.begin n onReady) := by
    refine h.frame rfl rfl (fun m hm => ?_) fun _ => id
    have hmn : m ≠ n := fun e => hm (congrArg Owner.loop e)
    show (Function.update s.runs n { onReady := onReady } m).pc.free = true
    rw [Function.update_of_ne hmn]
    exact h.loops m hm
  refine hbegin.loop (fun hne => absurd rfl hne) (fun hpc _ => ?_) hloop
  subst hpc
  cases henters with
  | calls hconn => exact h.none_open hidle hconn

theorem One.resumes (hown : Owned s) (h : One o s) {n : Nat} {ok : Bool} {pc : RunPc}
    (hgoes : Goes s n ok (s.runs n).pc pc) (hloop : LoopEffect cfg s n pc s') : One o s' := by
  refine h.loop (fun hne => ?_) (fun hpc ho => ?_) hloop
  · rcases hgoes.busy with hbusy | rfl
    · rw [h.loops n hne] at hbusy
      cases hbusy
    · rfl
  · subst hpc
    subst ho
    generalize hold : (s.runs n).pc = old at hgoes
    cases hgoes with
    | enters henters =>
      cases henters with
      | calls hconn => exact h.none_open (hown.free (by rw [hold]; nofun)) hconn

/-- **Every step keeps it.** -/
theorem step_one {a : ClientAction} (ht : Tidy cfg s) (hown : Owned s) (h : One o s)
    (ha : Sole o s a) (hs : s.step cfg a = some s') : One o s' := by
  cases step_cases hs with
  | @start n hfree =>
    obtain ⟨rfl, hconn⟩ := ha
    have hcalled : One (.user n) s.called := h.frame rfl rfl h.loops fun _ => id
    exact hcalled.setStart fun i hi => absurd hi (h.none_open hfree hconn i)
  | @connected t hstart =>
    obtain rfl := h.eq_of_factory (t := t) (by rw [hstart]; rfl)
    exact h.connected hstart
  | @refused t e hstart _ =>
    obtain rfl := h.eq_of_factory (t := t) (by rw [hstart]; rfl)
    have hnone := h.none_open_of_busy (by rw [hstart]; rfl) (by rw [hstart]; rfl)
    exact h.setStart fun i hi => absurd hi (hnone i)
  | greets hstart hl => exact h.setLink hl nofun
  | @sends _ t i _ c' _ _ _ hgoes hc' =>
    obtain ⟨ho, l, hl, hclosed⟩ := hgoes.link
    obtain rfl := h.eq_of_factory (StartPc.busy_of_link ho)
    have hlink := h.setLink hl (m := .live c') fun e => Conn.step_closed hc' (hclosed e)
    exact hlink.setStart fun j hj => congrArg some (h.own ho hj).symm
  | returns _ hgoes =>
    obtain ⟨ho, _⟩ := hgoes.link
    obtain rfl := h.eq_of_factory (StartPc.busy_of_link ho)
    exact h.returns ho
  | @fails _ t i l e _ c' _ hl hfails hc' =>
    have ho := hfails.link
    obtain rfl := h.eq_of_factory (StartPc.busy_of_link ho)
    have hlink := h.setLink hl (m := .live c') fun _ => closed_of_step hc'
    exact hlink.setStart fun j hj => congrArg some (h.own ho hj).symm
  | @raises t i early e c hstart hl _ =>
    have ho : (s.starts t).link = some i := by rw [hstart]; rfl
    obtain rfl := h.eq_of_factory (StartPc.busy_of_link ho)
    exact h.raises ht hstart
  | @run n onReady pc _ hfree henters hloop =>
    have ho : o = .loop n := ha
    subst ho
    exact h.run hown hfree henters hloop
  | resumes _ hgoes hloop => exact h.resumes hown hgoes hloop
  | cancelRun _ => exact h.setRun _ fun _ => rfl
  | stops _ _ => exact h.frame rfl rfl h.loops fun _ => id
  | closes _ hl _ hc' =>
    have hlink := h.stepLink hl hc'
    exact hlink.frame rfl rfl hlink.loops fun _ => id
  | closeReturns _ _ _ => exact h.frame rfl rfl h.loops fun _ => id
  | link hl _ hc' => exact h.stepLink hl hc'

theorem one_init (o : Owner) : One o {} := by
  have hnone : ∀ i, ¬ Open {} i := fun i hi => by
    obtain ⟨l, hl, _⟩ := hi
    cases hl
  exact ⟨fun _ _ => rfl, fun _ _ => rfl, fun i hi => absurd hi (hnone i),
    fun _ i hi => absurd hi (hnone i)⟩

theorem One.oneOpen (h : One o s) : OneOpen cfg o s := by
  have installed : (s.starts o).free = true → ∀ i, Open s i → s.conn = some i := fun hfree i hi =>
    (h.held i hi).resolve_right (by rw [StartPc.link_of_free hfree]; nofun)
  refine ⟨fun i j hi hj => ?_, h.held, fun hfree => ?_, fun io s' hfree hs i hi => ?_⟩
  · cases hbusy : (s.starts o).free with
    | true => exact Option.some.inj ((installed hbusy i hi).symm.trans (installed hbusy j hj))
    | false => exact Option.some.inj ((h.alone hbusy i hi).symm.trans (h.alone hbusy j hj))
  · rw [connected_iff]
    exact ⟨fun ⟨i, _, hi⟩ => ⟨i, hi⟩, fun ⟨i, hi⟩ => ⟨i, installed hfree i hi, hi⟩⟩
  · cases step_cases hs with
    | stops hconn _ =>
      have := installed hfree i hi
      rw [hconn] at this
      cases this
    | @closes _ _ j _ c' hconn hl _ hc' =>
      obtain ⟨m, hm, hopen⟩ := hi
      have hm : (s.links.set j (.live c'))[i]? = some m := hm
      by_cases hij : j = i
      · subst hij
        rw [List.getElem?_set_self (lt_of_getElem?_eq_some hl)] at hm
        cases hm
        have hopen : c'.closed = false := hopen
        rw [closed_of_step hc'] at hopen
        cases hopen
      · rw [List.getElem?_set_ne hij] at hm
        have := installed hfree i ⟨m, hm, hopen⟩
        rw [hconn] at this
        exact hij (Option.some.inj this)
    | sends _ hgoes _ =>
      obtain ⟨ho, _⟩ := hgoes.link
      obtain rfl := h.eq_of_factory (StartPc.busy_of_link ho)
      rw [StartPc.busy_of_link ho] at hfree
      cases hfree
    | returns _ hgoes =>
      obtain ⟨ho, _⟩ := hgoes.link
      obtain rfl := h.eq_of_factory (StartPc.busy_of_link ho)
      rw [StartPc.busy_of_link ho] at hfree
      cases hfree
    | fails _ _ hfails _ =>
      have ho := hfails.link
      obtain rfl := h.eq_of_factory (StartPc.busy_of_link ho)
      rw [StartPc.busy_of_link ho] at hfree
      cases hfree

/-- **One connection at a time**, in every run in which only one task makes connections: of all
that were ever made one at most is open, none is forgotten, and `close` leaves none open unless it
comes during a `start`. -/
theorem one_connection (h : Sys.Reach (step cfg) (Sole o) {} s) : OneOpen cfg o s := by
  have hall := h.inv (I := fun s => (Tidy cfg s ∧ Owned s) ∧ One o s)
    ⟨⟨tidy_init, owned_init⟩, one_init o⟩ fun _ _ _ hi ha hs =>
      ⟨⟨(step_keeps hi.1.1 hs).tidy, (step_moves hi.1.2 hs).owned⟩,
        step_one hi.1.1 hi.1.2 hi.2 ha hs⟩
  exact hall.2.oneOpen

def soleCheck : ClientAction → Bool
  | .start _ => false
  | .run n _ => n == 0
  | _ => true

theorem sole_of_check (s : Client) (a : ClientAction) (h : soleCheck a = true) :
    Sole (.loop 0) s a := by
  cases a with
  | start n => cases h
  | run n onReady => exact congrArg Owner.loop (beq_iff_eq.mp h).symm
  | _ => exact trivial

def reconnectRun : List ClientAction :=
  [.run 0 false, .connected (.loop 0), .greet (.loop 0) (ascii "TS3"),
    .greet (.loop 0) (ascii "Welcome"), .resumeRun 0 true, .link 0 .eof, .link 0 (.resumeWait 0),
    .resumeRun 0 true, .resumeRun 0 true, .connected (.loop 0)]

theorem one_connection_reconnect :
    ∃ s, Sys.run (step {}) {} reconnectRun = some s ∧ s.links.map Link.closed = [true, false] ∧
      OneOpen {} (.loop 0) s := by
  obtain ⟨s, hs, h⟩ := Sys.exists_reach_of_guard (step {}) (Sole (.loop 0))
    (fun _ a => soleCheck a) {} reconnectRun sole_of_check (by decide +kernel)
  exact ⟨s, hs, Sys.eq_of_run_map (f := fun s : Client => s.links.map Link.closed) hs
    (by decide +kernel), one_connection h⟩

end

end Client
end Atsq
