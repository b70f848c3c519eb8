import Atsq.Client.Setup

/-!
# What a run of a client keeps

* `Phase`       what holds of a `start` under way: its commands so far, in their order;
* `SetUpBy`     all commands of the `start` that made this connection have passed;
* `Tidy`        what every run of a client keeps: each `start` is in its phase, and only connections
                that are set up are installed or returned;
* `Keeps`       a step after which the client is tidy, and what was set up still is.

Main result: `step_keeps`.
-/

namespace Atsq
open Py

namespace Client

inductive Phase (cfg : ClientConfig) (s : Client) (o : Owner) : StartPc → Prop where
  | greeting {i : Nat} {lines : List Bytes} : s.links[i]? = some (.greeting lines) →
      Phase cfg s o (.greeting i)
  /-- the commands `done` have passed, and no command after `x` is sent -/
  | setup {i : Nat} {x : Setup} {done rest : List Setup} {c : Conn} {base xs : List Sent} :
      s.links[i]? = some (.live c) → cfg.setup = done ++ x :: rest → c.Passing done base →
      c.Trying cfg.conn o.task x base xs → Phase cfg s o (.setup i (x :: rest))
  | failing {i : Nat} {e : StartError} {c : Conn} : s.links[i]? = some (.live c) →
      c.closed = true → c.Failed cfg o.task e → Phase cfg s o (.failing i e)

/-- set up by a `start` of `o`, which is over -/
def SetUpBy (cfg : ClientConfig) (s : Client) (i : Nat) (o : Owner) : Prop :=
  ∃ c : Conn, s.links[i]? = some (.live c) ∧ c.Complete cfg o.task ∧
    ∀ t, (s.starts t).link ≠ some i

def SetUp (cfg : ClientConfig) (s : Client) (i : Nat) : Prop := ∃ o, SetUpBy cfg s i o

structure Tidy (cfg : ClientConfig) (s : Client) : Prop where
  base : ∀ (i : Nat) (c : Conn), s.links[i]? = some (.live c) → c.Base
  phase : ∀ o i, (s.starts o).link = some i → Phase cfg s o (s.starts o)
  unique : ∀ o t i, (s.starts o).link = some i → (s.starts t).link = some i → o = t
  installed : ∀ i, s.conn = some i → SetUp cfg s i
  returned : ∀ o i, s.starts o = .returned i → SetUpBy cfg s i o

structure Keeps (cfg : ClientConfig) (s s' : Client) : Prop where
  tidy : Tidy cfg s'
  setUp : ∀ i o, SetUpBy cfg s i o → SetUpBy cfg s' i o

/-! ## what a phase depends on -/

section
variable {cfg : ClientConfig} {s s' : Client} {o : Owner}

theorem Phase.congr {pc : StartPc} (h : Phase cfg s o pc)
    (hl : ∀ i, pc.link = some i → s'.links[i]? = s.links[i]?) : Phase cfg s' o pc := by
  cases h with
  | greeting hlink => exact .greeting ((hl _ rfl).trans hlink)
  | setup hlink h1 h2 h3 => exact .setup ((hl _ rfl).trans hlink) h1 h2 h3
  | failing hlink h1 h2 => exact .failing ((hl _ rfl).trans hlink) h1 h2

theorem Phase.lt {pc : StartPc} (h : Phase cfg s o pc) {i : Nat} (hi : pc.link = some i) :
    i < s.links.length := by
  cases h <;> cases hi <;> exact lt_of_getElem?_eq_some ‹_›

theorem SetUpBy.lt {i : Nat} (h : SetUpBy cfg s i o) : i < s.links.length := by
  obtain ⟨_, hl, _⟩ := h
  exact lt_of_getElem?_eq_some hl

theorem SetUpBy.congr {i : Nat} (h : SetUpBy cfg s i o) (hl : s'.links[i]? = s.links[i]?)
    (hs : ∀ t, (s'.starts t).link = some i → (s.starts t).link = some i) : SetUpBy cfg s' i o := by
  obtain ⟨c, hlink, hc, hnone⟩ := h
  exact ⟨c, hl.trans hlink, hc, fun t ht => hnone t (hs t ht)⟩

/-- a step of a connection that is no call of a `start` -/
def Quiet (a : Action) : Prop := ∀ o : Owner, ¬ Conn.Starts o.task a

theorem quiet_of_outside {a : Action} (h : a.outside = true) : Quiet a := by
  intro o
  cases a with
  | exec n cmd options blocks params =>
    intro hn
    have hn : n = inside o.slot := hn
    have hodd : (n % 2 == 1) = true := h
    rw [hn, inside, Nat.mul_mod_right] at hodd
    cases hodd
  | _ => exact id

theorem Keeps.trans {s₁ s₂ : Client} (h₁ : Keeps cfg s s₁) (h₂ : Keeps cfg s₁ s₂) :
    Keeps cfg s s₂ := ⟨h₂.tidy, fun i o hi => h₂.setUp i o (h₁.setUp i o hi)⟩

/-! ## what keeps a client tidy -/

theorem Tidy.frame (h : Tidy cfg s) (hl : s'.links = s.links) (hc : s'.conn = s.conn)
    (hs : ∀ t, s'.starts t = s.starts t ∨
      ((s'.starts t).link = none ∧ ∀ i, s'.starts t ≠ .returned i)) : Keeps cfg s s' := by
  have hlink : ∀ t i, (s'.starts t).link = some i →
      (s.starts t).link = some i ∧ s'.starts t = s.starts t := by
    intro t i ht
    rcases hs t with he | ⟨hn, _⟩
    · exact ⟨he ▸ ht, he⟩
    · rw [hn] at ht
      cases ht
  have hup : ∀ i o, SetUpBy cfg s i o → SetUpBy cfg s' i o := fun i o hi =>
    hi.congr (by rw [hl]) fun t ht => (hlink t i ht).1
  refine ⟨⟨fun i c hi => h.base i c (hl ▸ hi), fun o i ho => ?_, fun o t i ho ht => ?_,
    fun i hi => (h.installed i (hc ▸ hi)).imp (hup i), fun o i ho => ?_⟩, hup⟩
  · obtain ⟨h1, h2⟩ := hlink o i ho
    rw [h2]
    exact (h.phase o i h1).congr fun _ _ => by rw [hl]
  · exact h.unique o t i (hlink o i ho).1 (hlink t i ht).1
  · rcases hs o with he | ⟨_, hn⟩
    · exact hup i o (h.returned o i (he ▸ ho))
    · exact absurd ho (hn i)

theorem getElem?_setLink_self {i : Nat} {l l' : Link} (hl : s.links[i]? = some l) :
    (s.setLink i l').links[i]? = some l' :=
  List.getElem?_set_self (lt_of_getElem?_eq_some hl)

theorem getElem?_setLink_of_ne {i j : Nat} (l' : Link) (h : i ≠ j) :
    (s.setLink i l').links[j]? = s.links[j]? := List.getElem?_set_ne h

theorem base_setLink (h : Tidy cfg s) {i : Nat} {l : Link} (hl : s.links[i]? = some l) {l' : Link}
    (hbase : ∀ c, l' = .live c → c.Base) (j : Nat) (c : Conn)
    (hj : (s.setLink i l').links[j]? = some (.live c)) : c.Base := by
  by_cases hij : i = j
  · subst hij
    rw [getElem?_setLink_self hl] at hj
    exact hbase c (Option.some.inj hj)
  · rw [getElem?_setLink_of_ne l' hij] at hj
    exact h.base j c hj

theorem Tidy.inner (h : Tidy cfg s) {i : Nat} {c c' : Conn} {a : Action}
    (hl : s.links[i]? = some (.live c)) (hs : c.step cfg.conn a = some c') (ha : Quiet a) :
    Keeps cfg s (s.setLink i (.live c')) := by
  have hb := h.base i c hl
  have hself : (s.setLink i (.live c')).links[i]? = some (.live c') := getElem?_setLink_self hl
  have hup : ∀ j o, SetUpBy cfg s j o → SetUpBy cfg (s.setLink i (.live c')) j o := by
    intro j o hj
    by_cases hij : i = j
    · subst hij
      obtain ⟨d, hd, hcomplete, hnone⟩ := hj
      rw [hl] at hd
      cases hd
      exact ⟨c', hself, hcomplete.step hb hs (ha o), hnone⟩
    · exact hj.congr (getElem?_setLink_of_ne _ hij) fun _ ht => ht
  refine ⟨⟨base_setLink h hl fun d hd => ?_, fun o j ho => ?_, h.unique,
    fun j hj => (h.installed j hj).imp (hup j), fun o j hj => hup j o (h.returned o j hj)⟩, hup⟩
  · cases hd
    exact Conn.step_base hb hs
  · have ho : (s.starts o).link = some j := ho
    have hphase := h.phase o j ho
    show Phase cfg _ o (s.starts o)
    by_cases hij : i = j
    · subst hij
      generalize s.starts o = pc at hphase ho
      cases hphase with
      | greeting hlink =>
        cases ho
        rw [hl] at hlink
        cases hlink
      | setup hlink hsetup hpass htry =>
        cases ho
        rw [hl] at hlink
        cases hlink
        obtain ⟨xs', htry'⟩ := htry.step hb hs (ha o)
        refine .setup hself hsetup (hpass.mono (c := o.task) hb (fun y hy => ?_) ?_) htry'
        · rw [htry.sentBy]
          exact List.mem_append_left _ hy
        · exact Conn.received_prefix hb hs (ha o)
      | failing hlink hclosed hfail =>
        cases ho
        rw [hl] at hlink
        cases hlink
        exact .failing hself (Conn.step_closed hs hclosed) (hfail.step hb hs (ha o))
    · refine hphase.congr fun k hk => getElem?_setLink_of_ne _ ?_
      rw [hk] at ho
      exact fun e => hij (e.trans (Option.some.inj ho))

theorem Tidy.own (h : Tidy cfg s) {i : Nat} (ho : (s.starts o).link = some i) {l l' : Link}
    (hl : s.links[i]? = some l) (hbase : ∀ c, l' = .live c → c.Base) {pc : StartPc}
    (hret : ∀ j, pc ≠ .returned j) (hpc : ∀ j, pc.link = some j → j = i ∧
      Phase cfg ((s.setLink i l').setStart o pc) o pc) :
    Keeps cfg s ((s.setLink i l').setStart o pc) := by
  have hself : ((s.setLink i l').setStart o pc).starts o = pc := Function.update_self ..
  have hother : ∀ {t}, t ≠ o → ((s.setLink i l').setStart o pc).starts t = s.starts t :=
    fun ht => Function.update_of_ne ht ..
  have hlinks : ∀ {t j}, t ≠ o → (s.starts t).link = some j → i ≠ j := by
    rintro t j ht hj rfl
    exact ht (h.unique t o i hj ho)
  have hlink : ∀ t j, (((s.setLink i l').setStart o pc).starts t).link = some j →
      (s.starts t).link = some j := by
    intro t j hj
    by_cases ht : t = o
    · subst ht
      rw [hself] at hj
      rw [(hpc j hj).1]
      exact ho
    · rw [hother ht] at hj
      exact hj
  have hup : ∀ j t, SetUpBy cfg s j t → SetUpBy cfg ((s.setLink i l').setStart o pc) j t := by
    intro j t hj
    have hij : i ≠ j := by
      rintro rfl
      obtain ⟨_, _, _, hnone⟩ := hj
      exact hnone o ho
    exact hj.congr (getElem?_setLink_of_ne _ hij) (fun t => hlink t j)
  refine ⟨⟨base_setLink h hl hbase, fun t j ht => ?_, fun t u j ht hu =>
    h.unique t u j (hlink t j ht) (hlink u j hu), fun j hj => (h.installed j hj).imp (hup j),
    fun t j ht => ?_⟩, hup⟩
  · by_cases hto : t = o
    · subst hto
      rw [hself] at ht ⊢
      exact (hpc j ht).2
    · rw [hother hto] at ht ⊢
      refine (h.phase t j ht).congr fun k hk => ?_
      rw [hk] at ht
      exact getElem?_setLink_of_ne _ (hlinks hto hk)
  · by_cases hto : t = o
    · subst hto
      rw [hself] at ht
      exact absurd ht (hret j)
    · rw [hother hto] at ht
      exact hup j t (h.returned t j ht)

theorem Tidy.install (h : Tidy cfg s) {i : Nat} (ho : (s.starts o).link = some i) {l : Link}
    (hl : s.links[i]? = some l) {c : Conn} (hb : c.Base) (hc : c.Complete cfg o.task) :
    Keeps cfg s ({ s.setLink i (.live c) with conn := some i }.setStart o (.returned i)) := by
  have h₀ : Keeps cfg s ((s.setLink i (.live c)).setStart o .idle) :=
    h.own ho hl (fun d hd => by cases hd; exact hb) nofun nofun
  have hself : ((s.setLink i (.live c)).setStart o .idle).starts o = .idle :=
    Function.update_self ..
  generalize hs₁ : (s.setLink i (.live c)).setStart o .idle = s₁ at h₀ hself
  have h₁ := h₀.tidy
  have hlinks : s₁.links = (s.setLink i (.live c)).links := by rw [← hs₁]; rfl
  have hstarts : ∀ t, t ≠ o → s₁.starts t = s.starts t := fun t ht => by
    rw [← hs₁]
    exact Function.update_of_ne ht ..
  have hnone : ∀ t, (s₁.starts t).link ≠ some i := by
    intro t ht
    by_cases hto : t = o
    · rw [hto, hself] at ht
      cases ht
    · rw [hstarts t hto] at ht
      exact hto (h.unique t o i ht ho)
  let s' : Client := { s.setLink i (.live c) with conn := some i }.setStart o (.returned i)
  have hself' : s'.starts o = .returned i := Function.update_self ..
  have hother : ∀ t, t ≠ o → s'.starts t = s₁.starts t := fun t ht =>
    (Function.update_of_ne ht ..).trans (hstarts t ht).symm
  have hlinks' : s'.links = s₁.links := hlinks.symm
  have hlink : ∀ t j, (s'.starts t).link = some j → (s₁.starts t).link = some j ∧ t ≠ o := by
    intro t j ht
    by_cases hto : t = o
    · rw [hto, hself'] at ht
      cases ht
    · rw [hother t hto] at ht
      exact ⟨ht, hto⟩
  have hup : ∀ j t, SetUpBy cfg s₁ j t → SetUpBy cfg s' j t := fun j t hj =>
    hj.congr (by rw [hlinks']) fun t ht => (hlink t j ht).1
  have hthis : SetUpBy cfg s' i o := by
    refine ⟨c, ?_, hc, fun t ht => hnone t (hlink t i ht).1⟩
    exact getElem?_setLink_self hl
  refine ⟨⟨fun j d hd => h₁.base j d (hlinks' ▸ hd), fun t j ht => ?_, fun t u j ht hu =>
    h₁.unique t u j (hlink t j ht).1 (hlink u j hu).1, fun j hj => ?_, fun t j ht => ?_⟩,
    fun j t hj => hup j t (h₀.setUp j t hj)⟩
  · obtain ⟨h2, hto⟩ := hlink t j ht
    show Phase cfg s' t (s'.starts t)
    rw [hother t hto]
    exact (h₁.phase t j h2).congr fun _ _ => by rw [hlinks']
  · have hj : some i = some j := hj
    rw [← Option.some.inj hj]
    exact ⟨o, hthis⟩
  · by_cases hto : t = o
    · have ht : s'.starts t = .returned j := ht
      rw [hto, hself'] at ht
      cases ht
      subst hto
      exact hthis
    · have ht : s'.starts t = .returned j := ht
      rw [hother t hto] at ht
      exact hup j t (h₁.returned t j ht)

/-! ## what a `start` goes on from -/

theorem close_quiet (n : Nat) (io : Io) : Quiet (.close n io) := fun _ => id
theorem wait_quiet (n : Nat) (timeout : Option ℚ) : Quiet (.wait n timeout) := fun _ => id

theorem unstarted_closed {cc : Config} {n : Nat} {io : Io} {c' : Conn} {e : StartError}
    (he : e.ofGreeting = true)
    (hs : (Conn.unstarted cc e.lost).step cc (.close n io) = some c') :
    c'.Base ∧ c'.Failed cfg o.task e := by
  -- as if the receive loop had been started
  let r : Conn := { Conn.unstarted cc e.lost with recvTask := .running }
  have hr : r.Base :=
    { session :=
        { lock := rfl
          buffer := rfl
          marks := fun _ h => absurd h List.not_mem_nil
          callers := fun _ => .of_plain (nofun) rfl }
      tasks := ⟨⟨fun _ => rfl, fun _ => rfl⟩, nofun⟩
      ledger := .init cc.eventQueueSize
      waiters := .init cc.eventQueueSize
      quitsOpen := fun _ => rfl
      quits := Nat.zero_le _ }
  have hstep : r.step cc (.close n io) = some (r.closeCall n io) := rfl
  have hb := Conn.step_base hr hstep
  have hc : c' = { r.closeCall n io with recvTask := .ended } := by
    cases hs
    obtain ⟨drain, waits⟩ := io
    cases e <;> cases drain <;> cases waits <;> rfl
  obtain ⟨hst, hpc⟩ := Conn.still_of_free (c := o.task) hr hstep (close_quiet n io o) rfl
  rw [hc]
  refine ⟨⟨hb.session, ⟨⟨nofun, fun hopen => ?_⟩, hb.tasks.keepalive⟩, hb.ledger, hb.waiters,
    hb.quitsOpen, hb.quits⟩, .greeting he hst.sent ?_⟩
  · have hopen : (r.closeCall n io).closed = false := hopen
    rw [Conn.closeCall_closed] at hopen
    cases hopen
  · show ((r.closeCall n io).execs o.task).pc.free = true
    rw [hpc]
    rfl

theorem Tidy.goesOn (h : Tidy cfg s) {i : Nat} {c : Conn} {rest : List Setup}
    (hgoes : GoesOn cfg s o i c rest) : c.Base ∧ (c.execs o.task).pc.free = true ∧
      ∃ done, cfg.setup = done ++ rest ∧ c.Passing done (c.session.sentBy o.task) := by
  have hphase := h.phase o i hgoes.link.1
  cases hgoes with
  | greeted hstart hl hc hrest =>
    rw [hc, hrest]
    exact ⟨Conn.base_started .., rfl, [], rfl, .nil _⟩
  | answered hstart hl hpc hout =>
    rw [hstart] at hphase
    cases hphase with
    | setup hlink hsetup hpass htry =>
      rw [hl] at hlink
      cases hlink
      refine ⟨h.base i c hl, by rw [hpc]; rfl, _, hsetup.trans (List.append_cons ..), ?_⟩
      rw [htry.sentBy]
      exact hpass.concat (htry.passed hpc hout)

theorem Tidy.fails (h : Tidy cfg s) {i : Nat} {l : Link} {e : StartError} {io : Io} {c' : Conn}
    (hl : s.links[i]? = some l) (hfails : Fails s o i l e)
    (hs : (l.conn cfg.conn e.lost).step cfg.conn (.close (inside (2 * o.slot)) io) = some c') :
    c'.Base ∧ c'.Failed cfg o.task e := by
  have hphase := h.phase o i hfails.link
  cases hfails with
  | greeting hstart he =>
    rw [hstart] at hphase
    cases hphase with
    | greeting hlink =>
      rw [hl] at hlink
      cases hlink
      exact unstarted_closed he hs
  | command hstart hlive hpc hout =>
    subst hlive
    rw [hstart] at hphase
    cases hphase with
    | setup hlink hsetup hpass htry =>
      rw [hl] at hlink
      cases hlink
      have hb := h.base i _ hl
      exact ⟨Conn.step_base hb hs, Conn.Failed.step hb hs (close_quiet _ io o)
        (.command hsetup hpass htry.sentBy htry.lines hpc hout)⟩

theorem Tidy.setStart (h : Tidy cfg s) {pc : StartPc} (hlink : pc.link = none)
    (hreturned : ∀ i, pc ≠ .returned i) : Keeps cfg s (s.setStart o pc) := by
  refine h.frame rfl rfl fun t => ?_
  by_cases hto : t = o
  · subst hto
    have hself : (s.setStart t pc).starts t = pc := Function.update_self ..
    rw [hself]
    exact Or.inr ⟨hlink, hreturned⟩
  · exact Or.inl (Function.update_of_ne hto ..)

theorem keeps_connected (h : Tidy cfg s) : Keeps cfg s
    ({ s with links := s.links ++ [Link.greeting []] }.setStart o (.greeting s.links.length)) := by
  let s' : Client :=
    { s with links := s.links ++ [Link.greeting []] }.setStart o (.greeting s.links.length)
  have hself : s'.starts o = .greeting s.links.length := Function.update_self ..
  have hother : ∀ t, t ≠ o → s'.starts t = s.starts t := fun t ht => Function.update_of_ne ht ..
  have hold : ∀ j, j < s.links.length → s'.links[j]? = s.links[j]? := fun j hj =>
    List.getElem?_append_left hj
  have hnew : s'.links[s.links.length]? = some (.greeting []) := List.getElem?_concat_length ..
  -- only the new `start` has the new connection
  have hlink : ∀ t j, (s'.starts t).link = some j →
      (t = o ∧ j = s.links.length) ∨ (t ≠ o ∧ (s.starts t).link = some j ∧ j < s.links.length) := by
    intro t j ht
    by_cases hto : t = o
    · subst hto
      rw [hself] at ht
      cases ht
      exact Or.inl ⟨rfl, rfl⟩
    · rw [hother t hto] at ht
      exact Or.inr ⟨hto, ht, (h.phase t j ht).lt ht⟩
  have hup : ∀ j u, SetUpBy cfg s j u → SetUpBy cfg s' j u := by
    refine fun j u hj => hj.congr (hold j hj.lt) fun t ht => ?_
    rcases hlink t j ht with ⟨_, he⟩ | ⟨_, ht, _⟩
    · exact absurd hj.lt (by rw [he]; exact Nat.lt_irrefl _)
    · exact ht
  refine ⟨⟨fun j c hj => ?_, fun t j ht => ?_, fun t u j ht hu => ?_,
    fun j hj => (h.installed j hj).imp (hup j), fun t j ht => ?_⟩, hup⟩
  · have hj : s'.links[j]? = some (.live c) := hj
    by_cases hlt : j < s.links.length
    · rw [hold j hlt] at hj
      exact h.base j c hj
    · have hlen : s'.links.length = s.links.length + 1 := List.length_append
      have := lt_of_getElem?_eq_some hj
      have he : j = s.links.length := by omega
      rw [he, hnew] at hj
      cases hj
  · rcases hlink t j ht with ⟨hto, _⟩ | ⟨hto, ht, _⟩
    · subst hto
      show Phase cfg s' t (s'.starts t)
      rw [hself]
      exact .greeting hnew
    · show Phase cfg s' t (s'.starts t)
      rw [hother t hto]
      exact (h.phase t j ht).congr fun k hk => hold k ((h.phase t j ht).lt hk)
  · rcases hlink t j ht with ⟨hto, he⟩ | ⟨hto, ht, hlt⟩
    · rcases hlink u j hu with ⟨huo, _⟩ | ⟨_, _, hlt⟩
      · rw [hto, huo]
      · omega
    · rcases hlink u j hu with ⟨_, he⟩ | ⟨_, hu, _⟩
      · omega
      · exact h.unique t u j ht hu
  · have ht : s'.starts t = .returned j := ht
    by_cases hto : t = o
    · rw [hto, hself] at ht
      cases ht
    · rw [hother t hto] at ht
      exact hup j t (h.returned t j ht)

/-! ## every step -/

theorem Tidy.setRun (h : Tidy cfg s) (n : Nat) (pc : RunPc) : Keeps cfg s (s.setRun n pc) :=
  h.frame rfl rfl fun _ => Or.inl rfl

theorem Tidy.loop (h : Tidy cfg s) {n : Nat} {pc : RunPc} (hs : LoopEffect cfg s n pc s') :
    Keeps cfg s s' := by
  cases hs with
  | stays => exact h.setRun n _
  | waits hl hc' =>
    have h₁ := h.inner hl hc' (wait_quiet _ _)
    exact h₁.trans (h₁.tidy.setRun n _)
  | calls =>
    have h₁ : Keeps cfg s (s.setStart (.loop n) .factory) := h.setStart rfl nofun
    exact h₁.trans (h₁.tidy.setRun n _)

/-- **Every step keeps a client tidy.** -/
theorem step_keeps {a : ClientAction} (h : Tidy cfg s) (hs : s.step cfg a = some s') :
    Keeps cfg s s' := by
  cases step_cases hs with
  | start _ =>
    have h₁ : Keeps cfg s s.called := h.frame rfl rfl fun _ => Or.inl rfl
    exact h₁.trans (h₁.tidy.setStart rfl nofun)
  | connected _ => exact keeps_connected h
  | refused _ _ => exact h.setStart rfl nofun
  | @greets o i lines line hstart hl =>
    have ho : (s.starts o).link = some i := by rw [hstart]; rfl
    have hsame : s.setLink i (.greeting (lines ++ [line]))
        = (s.setLink i (.greeting (lines ++ [line]))).setStart o (.greeting i) := by
      have hpc : Function.update s.starts o (.greeting i) = s.starts := by
        rw [← hstart, Function.update_eq_self]
      show _ = { s.setLink i _ with starts := Function.update s.starts o (.greeting i) }
      rw [hpc]
      rfl
    rw [hsame]
    refine h.own ho hl (fun d hd => by cases hd) nofun fun j hj => ?_
    cases hj
    exact ⟨rfl, .greeting (getElem?_setLink_self hl)⟩
  | sends _ hgoes hc' =>
    obtain ⟨ho, l, hl, _⟩ := hgoes.link
    obtain ⟨hb, _, done, hsetup, hpass⟩ := h.goesOn hgoes
    obtain ⟨htry, hreceived⟩ := Conn.trying_start hb hc'
    refine h.own ho hl (fun d hd => ?_) nofun fun j hj => ?_
    · cases hd
      exact Conn.step_base hb hc'
    · cases hj
      refine ⟨rfl, .setup (getElem?_setLink_self hl) hsetup ?_ htry⟩
      refine hpass.mono (c := _) hb (fun _ hy => hy) ?_
      rw [hreceived]
  | returns _ hgoes =>
    obtain ⟨ho, l, hl, _⟩ := hgoes.link
    obtain ⟨hb, hfree, done, hsetup, hpass⟩ := h.goesOn hgoes
    rw [List.append_nil] at hsetup
    rw [← hsetup] at hpass
    exact h.install ho hl hb ⟨hpass, hfree⟩
  | fails _ hl hfails hc' =>
    obtain ⟨hb, hfailed⟩ := h.fails hl hfails hc'
    refine h.own hfails.link hl (fun d hd => ?_) nofun fun j hj => ?_
    · cases hd
      exact hb
    · cases hj
      exact ⟨rfl, .failing (getElem?_setLink_self hl) (closed_of_step hc') hfailed⟩
  | raises _ _ _ => exact h.setStart rfl nofun
  | @run n onReady _ _ _ _ hloop =>
    have h₁ : Keeps cfg s (s.begin n onReady) := h.frame rfl rfl fun _ => Or.inl rfl
    exact h₁.trans (h₁.tidy.loop hloop)
  | resumes _ _ hloop => exact h.loop hloop
  | cancelRun _ => exact h.setRun _ _
  | stops _ _ => exact h.frame rfl rfl fun _ => Or.inl rfl
  | closes _ hl _ hc' =>
    have h₁ := h.inner hl hc' (close_quiet _ _)
    exact h₁.trans (h₁.tidy.frame rfl rfl fun _ => Or.inl rfl)
  | closeReturns _ _ _ => exact h.frame rfl rfl fun _ => Or.inl rfl
  | link hl hout hc' => exact h.inner hl hc' (quiet_of_outside hout)

theorem tidy_init : Tidy cfg {} where
  base _ _ := nofun
  phase _ _ := nofun
  unique _ _ _ := nofun
  installed _ := nofun
  returned _ _ := nofun

end

end Client
end Atsq
