import Atsq.Client.Solo

/-!
# `atsq.connect`

A client of its own, on which `start` is called once; if that raises, the client is closed.  Nobody
else has the client before `connect` returns, so that only its `start` and its connection go on
meanwhile.

* `Connecting`   the client, and where `connect` is suspended;
* `Once`         what the client is like at each point of its only `start`.

Main result: `connect_all_or_nothing`.
-/

namespace Atsq
open Py

inductive ConnectPc where
  | starting
  /-- `close` after an exception of `start` -/
  | closing (e : StartError)
  | returned
  | raised (e : StartError)

structure Connecting where
  client : Client
  pc : ConnectPc := .starting

inductive ConnectAction where
  /-- `connect` goes on -/
  | resume (io : Io)
  /-- its `start`, or the connection -/
  | client (a : ClientAction)

/-- what goes on without a call of a user or of a loop -/
def ClientAction.inner : ClientAction → Bool
  | .connected _ | .refused _ _ | .greet _ _ | .greetFail _ _ _ | .advance _ _ | .startClosed _
  | .closeReturns _ | .link _ _ => true
  | _ => false

namespace Connecting

/-- the call of `connect` -/
def connect (cfg : ClientConfig) : Option Connecting :=
  (({} : Client).step cfg (.start 0)).map fun c => { client := c }

def resume (cfg : ClientConfig) (s : Connecting) (io : Io) : Option Connecting :=
  match s.pc with
  | .starting =>
    match s.client.starts (.user 0) with
    | .returned _ => some { s with pc := .returned }
    | .raised e =>
      (s.client.step cfg (.close io)).map fun c => { client := c, pc := .closing e }
    | _ => none
  | .closing e =>
    match s.client.closes.getLast?.map CloseCall.pc with
    | some .returned => some { s with pc := .raised e }
    | some .cancelled => some { s with pc := .raised .cancelled }
    | _ => none
  | _ => none

def step (cfg : ClientConfig) (s : Connecting) : ConnectAction → Option Connecting
  | .resume io => s.resume cfg io
  | .client a =>
    if a.inner then (s.client.step cfg a).map fun c => { s with client := c } else none

end Connecting

namespace Client

/-- the client at a point of its only `start` -/
inductive Once (s : Client) : StartPc → Prop where
  | factory : s.links = [] → s.conn = none → Once s .factory
  | underWay {pc : StartPc} : pc.link = some 0 → s.links.length = 1 → s.conn = none → Once s pc
  | returned : s.links.length = 1 → s.conn = some 0 → Once s (.returned 0)
  | raised {e : StartError} : s.links.length ≤ 1 → s.conn = none → Once s (.raised e)

section
variable {cfg : ClientConfig} {s s' : Client} {o : Owner}

theorem Once.congr {pc : StartPc} (h : Once s pc) (hl : s'.links.length = s.links.length)
    (hc : s'.conn = s.conn) : Once s' pc := by
  cases h with
  | factory h1 h2 =>
    refine .factory (List.length_eq_zero_iff.mp (hl.trans ?_)) (hc.trans h2)
    rw [h1]
    rfl
  | underWay hlink h1 h2 => exact .underWay hlink (hl.trans h1) (hc.trans h2)
  | returned h1 h2 => exact .returned (hl.trans h1) (hc.trans h2)
  | raised h1 h2 => exact .raised (hl.le.trans h1) (hc.trans h2)

theorem Once.of_link {pc : StartPc} (h : Once s pc) {i : Nat} (hi : pc.link = some i) :
    i = 0 ∧ s.links.length = 1 ∧ s.conn = none := by
  cases h with
  | factory _ _ => cases hi
  | underWay hlink h1 h2 =>
    rw [hlink] at hi
    exact ⟨(Option.some.inj hi).symm, h1, h2⟩
  | returned _ _ => cases hi
  | raised _ _ => cases hi

theorem step_once {a : ClientAction} (h₁ : One o s) (h : Once s (s.starts o))
    (ha : a.inner = true) (hs : s.step cfg a = some s') : Once s' (s'.starts o) := by
  have hself : ∀ (r : Client) (pc : StartPc), (r.setStart o pc).starts o = pc := fun _ _ =>
    Function.update_self ..
  have hlen : ∀ (i : Nat) (l : Link), (s.setLink i l).links.length = s.links.length := fun _ _ =>
    List.length_set
  cases step_cases hs with
  | start _ => cases ha
  | @connected t hstart =>
    obtain rfl := h₁.eq_of_factory (t := t) (by rw [hstart]; rfl)
    rw [hstart] at h
    cases h with
    | factory hnil hconn =>
      rw [hself]
      refine .underWay ?_ ?_ hconn
      · rw [hnil]
        rfl
      · show (s.links ++ [Link.greeting []]).length = 1
        rw [hnil]
        rfl
    | underWay hlink _ _ => cases hlink
  | @refused t e hstart _ =>
    obtain rfl := h₁.eq_of_factory (t := t) (by rw [hstart]; rfl)
    rw [hstart] at h
    cases h with
    | factory hnil hconn =>
      rw [hself]
      refine .raised ?_ hconn
      show s.links.length ≤ 1
      rw [hnil]
      exact Nat.zero_le 1
    | underWay hlink _ _ => cases hlink
  | greets _ _ => exact h.congr (hlen _ _) rfl
  | @sends _ t i _ _ _ _ _ hgoes _ =>
    obtain ⟨hlink, _⟩ := hgoes.link
    obtain rfl := h₁.eq_of_factory (StartPc.busy_of_link hlink)
    obtain ⟨rfl, hone, hconn⟩ := h.of_link hlink
    rw [hself]
    exact .underWay rfl ((hlen _ _).trans hone) hconn
  | @returns _ t i _ _ hgoes =>
    obtain ⟨hlink, _⟩ := hgoes.link
    obtain rfl := h₁.eq_of_factory (StartPc.busy_of_link hlink)
    obtain ⟨rfl, hone, _⟩ := h.of_link hlink
    rw [hself]
    exact .returned ((hlen _ _).trans hone) rfl
  | @fails _ t i _ _ _ _ _ _ hfails _ =>
    have hlink := hfails.link
    obtain rfl := h₁.eq_of_factory (StartPc.busy_of_link hlink)
    obtain ⟨rfl, hone, hconn⟩ := h.of_link hlink
    rw [hself]
    exact .underWay rfl ((hlen _ _).trans hone) hconn
  | @raises t i _ _ _ hstart _ _ =>
    have hlink : (s.starts t).link = some i := by rw [hstart]; rfl
    obtain rfl := h₁.eq_of_factory (StartPc.busy_of_link hlink)
    obtain ⟨_, hone, hconn⟩ := h.of_link hlink
    rw [hself]
    exact .raised hone.le hconn
  | run _ _ _ => cases ha
  | resumes _ _ _ => cases ha
  | cancelRun _ => cases ha
  | stops _ _ => cases ha
  | closes _ _ _ _ => cases ha
  | closeReturns _ _ _ => exact h.congr rfl rfl
  | link _ _ _ => exact h.congr (hlen _ _) rfl

theorem step_inner {a : ClientAction} (h₁ : One o s) (ha : a.inner = true)
    (hs : s.step cfg a = some s') :
    s'.stopping = s.stopping ∧ ((s.starts o).free = true → s'.starts o = s.starts o) := by
  -- who goes on is inside `start`
  have busy : ∀ {t : Owner}, (s.starts t).free = false → (s.starts o).free = true →
      s'.starts o = s.starts o := by
    intro t ht hfree
    rw [← h₁.eq_of_factory ht, ht] at hfree
    cases hfree
  cases step_cases hs with
  | start _ => cases ha
  | connected hstart => exact ⟨rfl, busy (by rw [hstart]; rfl)⟩
  | refused hstart _ => exact ⟨rfl, busy (by rw [hstart]; rfl)⟩
  | greets _ _ => exact ⟨rfl, fun _ => rfl⟩
  | sends _ hgoes _ => exact ⟨rfl, busy (StartPc.busy_of_link hgoes.link.1)⟩
  | returns _ hgoes => exact ⟨rfl, busy (StartPc.busy_of_link hgoes.link.1)⟩
  | fails _ _ hfails _ => exact ⟨rfl, busy (StartPc.busy_of_link hfails.link)⟩
  | raises hstart _ _ => exact ⟨rfl, busy (by rw [hstart]; rfl)⟩
  | run _ _ _ => cases ha
  | resumes _ _ _ => cases ha
  | cancelRun _ => cases ha
  | stops _ _ => cases ha
  | closes _ _ _ _ => cases ha
  | closeReturns _ _ _ => exact ⟨rfl, fun _ => rfl⟩
  | link _ _ _ => exact ⟨rfl, fun _ => rfl⟩

theorem sole_of_inner {a : ClientAction} (ha : a.inner = true) : Sole o s a := by
  cases a <;> first | exact trivial | cases ha

end

end Client

namespace Connecting
open Client

/-- what `connect` promises -/
structure Promised (cfg : ClientConfig) (s : Connecting) : Prop where
  /-- it returns a client with one connection, that is installed and set up -/
  returned : s.pc = .returned →
    s.client.links.length = 1 ∧ s.client.conn = some 0 ∧ SetUp cfg s.client 0
  /-- it raises, and leaves a closed client that never had but one connection, if any -/
  raised : ∀ e, s.pc = .raised e →
    s.client.stopping = true ∧ s.client.conn = none ∧ s.client.links.length ≤ 1 ∧
      ∀ l ∈ s.client.links, l.closed = true

structure Inv (cfg : ClientConfig) (s : Connecting) : Prop where
  tidy : Tidy cfg s.client
  owned : Owned s.client
  one : One (.user 0) s.client
  once : Once s.client (s.client.starts (.user 0))
  returned : s.pc = .returned → ∃ i, s.client.starts (.user 0) = .returned i
  failed : ∀ e, s.pc = .closing e ∨ s.pc = .raised e →
    s.client.stopping = true ∧ ∃ early, s.client.starts (.user 0) = .raised early

variable {cfg : ClientConfig} {s s' : Connecting}

theorem inv_connect (h : connect cfg = some s) : Inv cfg s := by
  obtain ⟨c, hc, rfl⟩ := Option.map_eq_some_iff.mp h
  have hone := step_one tidy_init owned_init (one_init (.user 0)) (a := .start 0) ⟨rfl, rfl⟩ hc
  have ht := (step_keeps tidy_init hc).tidy
  have hown := (step_moves owned_init hc).owned
  cases hc
  refine ⟨ht, hown, hone, ?_, nofun, fun _ => by rintro (h | h) <;> cases h⟩
  have hself : (({} : Client).called.setStart (.user 0) .factory).starts (.user 0) = .factory :=
    rfl
  show Once _ ((({} : Client).called.setStart (.user 0) .factory).starts (.user 0))
  rw [hself]
  exact .factory rfl rfl

theorem conn_of_raised {c : Client} (h : Once c (c.starts (.user 0))) {e : StartError}
    (hr : c.starts (.user 0) = .raised e) : c.links.length ≤ 1 ∧ c.conn = none := by
  rw [hr] at h
  cases h with
  | underWay hlink _ _ => cases hlink
  | raised h1 h2 => exact ⟨h1, h2⟩

theorem step_inv {a : ConnectAction} (h : Inv cfg s) (hs : s.step cfg a = some s') :
    Inv cfg s' := by
  cases a with
  | client a =>
    simp only [step] at hs
    split at hs
    · rename_i hinner
      obtain ⟨c, hc, rfl⟩ := Option.map_eq_some_iff.mp hs
      obtain ⟨hstopping, hkeeps⟩ := step_inner h.one hinner hc
      refine ⟨(step_keeps h.tidy hc).tidy, (step_moves h.owned hc).owned,
        step_one h.tidy h.owned h.one (sole_of_inner hinner) hc,
        step_once h.one h.once hinner hc, fun hpc => ?_, fun e hpc => ?_⟩
      · obtain ⟨i, hi⟩ := h.returned hpc
        exact ⟨i, (hkeeps (by rw [hi]; rfl)).trans hi⟩
      · obtain ⟨hstop, early, hr⟩ := h.failed e hpc
        exact ⟨hstopping.trans hstop, early, (hkeeps (by rw [hr]; rfl)).trans hr⟩
    · cases hs
  | resume io =>
    simp only [step, resume] at hs
    split at hs
    · split at hs
      · rename_i i hstart
        cases hs
        exact ⟨h.tidy, h.owned, h.one, h.once, fun _ => ⟨i, hstart⟩,
          fun _ => by rintro (h | h) <;> cases h⟩
      · rename_i early hstart
        obtain ⟨c, hc, rfl⟩ := Option.map_eq_some_iff.mp hs
        obtain ⟨_, hconn⟩ := conn_of_raised h.once hstart
        have hone := step_one h.tidy h.owned h.one (a := .close io) trivial hc
        have ht := (step_keeps h.tidy hc).tidy
        have hown := (step_moves h.owned hc).owned
        -- nothing is installed: `close` only stops the client
        simp only [Client.step, Client.close, hconn] at hc
        cases hc
        exact ⟨ht, hown, hone, h.once.congr rfl hconn.symm, (fun hpc => by cases hpc),
          fun _ _ => ⟨rfl, early, hstart⟩⟩
      · cases hs
    · rename_i e hpc
      have hfailed := h.failed e (Or.inl hpc)
      split at hs
      · cases hs
        exact ⟨h.tidy, h.owned, h.one, h.once, (fun hpc => by cases hpc), fun _ _ => hfailed⟩
      · cases hs
        exact ⟨h.tidy, h.owned, h.one, h.once, (fun hpc => by cases hpc), fun _ _ => hfailed⟩
      · cases hs
    · cases hs

/-- **`connect` returns a client that is set up, or raises and leaves nothing open**, in every run
of it. -/
theorem connect_all_or_nothing {s₀ : Connecting} (h₀ : connect cfg = some s₀)
    (h : Sys.Reach (step cfg) (fun _ _ => True) s₀ s) : Promised cfg s := by
  have hi := h.inv (inv_connect h₀) fun _ _ _ hi _ hs => step_inv hi hs
  refine ⟨fun hpc => ?_, fun e hpc => ?_⟩
  · obtain ⟨i, hstart⟩ := hi.returned hpc
    have honce := hi.once
    rw [hstart] at honce
    cases honce with
    | underWay hlink _ _ => cases hlink
    | returned hlen hconn => exact ⟨hlen, hconn, hi.tidy.installed 0 hconn⟩
  · obtain ⟨hstop, early, hstart⟩ := hi.failed e (Or.inr hpc)
    obtain ⟨hlen, hconn⟩ := conn_of_raised hi.once hstart
    refine ⟨hstop, hconn, hlen, fun l hl => ?_⟩
    by_contra hopen
    obtain ⟨i, hl⟩ := List.mem_iff_getElem?.mp hl
    rcases hi.one.held i ⟨l, hl, Bool.eq_false_iff.mpr hopen⟩ with h | h
    · rw [hconn] at h
      cases h
    · rw [hstart] at h
      cases h

def refusedRun : List ConnectAction :=
  [.client (.connected (.user 0)), .client (.greet (.user 0) (ascii "TS3")),
    .client (.greet (.user 0) (ascii "Welcome")), .client (.link 0 (.acquire (.task 0) .done)),
    .client (.link 0 (.recv (ascii "error id=1024 msg=invalid\\sserverID"))),
    .client (.link 0 (.resume (.task 0) {})), .client (.advance (.user 0) {}),
    .client (.startClosed (.user 0)), .resume {}, .resume {}]

theorem connect_all_or_nothing_refused :
    ∃ s₀ s, connect { serverId := some (.text (lit "7")) } = some s₀ ∧
      Sys.run (step { serverId := some (.text (lit "7")) }) s₀ refusedRun = some s ∧
      s.client.links.map Link.closed = [true] ∧
      Promised { serverId := some (.text (lit "7")) } s := by
  let s₀ : Connecting :=
    { client := ({} : Client).called.setStart (.user 0) .factory }
  have h₀ : connect { serverId := some (.text (lit "7")) } = some s₀ := rfl
  obtain ⟨s, hs, h⟩ := Sys.exists_reach (step { serverId := some (.text (lit "7")) })
    (fun _ _ => True) s₀ refusedRun (fun _ _ => trivial) (by decide +kernel)
  exact ⟨s₀, s, h₀, hs, Sys.eq_of_run_map (f := fun s : Connecting => s.client.links.map
    Link.closed) hs (by decide +kernel), connect_all_or_nothing h₀ h⟩

end Connecting
end Atsq
