import Atsq.Client.State

/-!
# What a step of a client can do

* `GoesOn`      a `start` that goes on with its next command, or returns;
* `Fails`       a `start` that has to close its connection;
* `Goes`        from one suspension of a loop to the next;
* `LoopEffect`  the client when a loop has got there;
* `Effect`      the client after an action, one constructor for each thing that an action can do.

Main result: `step_cases`.
-/

namespace Atsq
open Py

def Owner.task (o : Owner) : Caller := .task (inside o.slot)

def Setup.fatal (x : Setup) : Outcome → Bool
  | .rows _ => false
  | .queryError _ => !x.cosmetic
  | _ => true

def StartPc.link : StartPc → Option Nat
  | .greeting i | .setup i _ | .failing i _ => some i
  | _ => none

theorem StartPc.busy_of_link {pc : StartPc} {i : Nat} (h : pc.link = some i) : pc.free = false := by
  cases pc <;> first | rfl | cases h

def ClientAction.loop : ClientAction → Option Nat
  | .run n _ | .resumeRun n _ | .cancelRun n => some n
  | _ => none

namespace Client

/-- the `close` of a `start` that failed was cancelled in its turn -/
def CloseCancelled (c : Conn) (o : Owner) : Prop :=
  (c.closers (inside (2 * o.slot))).pc = .cancelled

/-- the connection is greeted, or the last command was answered well; `rest` is what follows -/
inductive GoesOn (cfg : ClientConfig) (s : Client) (o : Owner) (i : Nat) (c : Conn)
    (rest : List Setup) : Prop where
  | greeted {lines greeting : List Bytes} : s.starts o = .greeting i →
      s.links[i]? = some (.greeting lines) → c = Conn.started cfg.conn greeting →
      rest = cfg.setup → GoesOn cfg s o i c rest
  | answered {x : Setup} {out : Outcome} : s.starts o = .setup i (x :: rest) →
      s.links[i]? = some (.live c) → (c.execs o.task).pc = .finished out → x.fatal out = false →
      GoesOn cfg s o i c rest

inductive Fails (s : Client) (o : Owner) (i : Nat) (l : Link) : StartError → Prop where
  | greeting {e : StartError} : s.starts o = .greeting i → e.ofGreeting = true → Fails s o i l e
  | command {x : Setup} {rest : List Setup} {out : Outcome} {c : Conn} :
      s.starts o = .setup i (x :: rest) → l = .live c → (c.execs o.task).pc = .finished out →
      x.fatal out = true → Fails s o i l (.command out)

/-- what the head of a loop leads to -/
inductive Enters (s : Client) : RunPc → Prop where
  | listens {i : Nat} : s.stopping = false → s.connected = true → s.conn = some i →
      Enters s (.events i)
  | calls : s.connected = false → Enters s .starting
  | ends : Enters s .finished

/-- from one suspension of a loop to the next -/
inductive Goes (s : Client) (n : Nat) (ok : Bool) : RunPc → RunPc → Prop where
  | onReady {i : Nat} : s.starts (.loop n) = .returned i → (s.runs n).onReady = true →
      Goes s n ok .starting (.onReady i)
  | listens {i j : Nat} : s.starts (.loop n) = .returned i → (s.runs n).onReady = false →
      s.conn = some j → Goes s n ok .starting (.events j)
  | ready {i j : Nat} : ok = true → s.conn = some j → Goes s n ok (.onReady i) (.events j)
  | event {i : Nat} : Goes s n ok (.events i) (.dispatching i)
  | handled {i : Nat} : Goes s n ok (.dispatching i) (.events i)
  | enters {pc : RunPc} : Enters s pc → Goes s n ok .sleeping pc
  | loses {pc : RunPc} : pc.free = false → pc ≠ .sleeping → Goes s n ok pc .sleeping
  | ends {pc : RunPc} : Goes s n ok pc .finished

/-- the loop gets there by itself, waits for an event, or calls `start` -/
inductive LoopEffect (cfg : ClientConfig) (s : Client) (n : Nat) : RunPc → Client → Prop where
  | stays {pc : RunPc} : LoopEffect cfg s n pc (s.setRun n pc)
  | waits {i : Nat} {c c' : Conn} : s.links[i]? = some (.live c) →
      c.step cfg.conn (.wait (inside n) none) = some c' →
      LoopEffect cfg s n (.events i) ((s.setLink i (.live c')).setRun n (.events i))
  | calls : LoopEffect cfg s n .starting ((s.setStart (.loop n) .factory).setRun n .starting)

def begin (s : Client) (n : Nat) (onReady : Bool) : Client :=
  { s.called with runs := Function.update s.runs n { onReady := onReady } }

inductive Effect (cfg : ClientConfig) (s : Client) : ClientAction → Client → Prop where
  | start {n : Nat} : (s.starts (.user n)).free = true →
      Effect cfg s (.start n) (s.called.setStart (.user n) .factory)
  | connected {o : Owner} : s.starts o = .factory →
      Effect cfg s (.connected o)
        ({ s with links := s.links ++ [Link.greeting []] }.setStart o (.greeting s.links.length))
  | refused {o : Owner} {e : StartError} : s.starts o = .factory → e.ofFactory = true →
      Effect cfg s (.refused o e) (s.setStart o (.raised e))
  | greets {o : Owner} {i : Nat} {lines : List Bytes} {line : Bytes} :
      s.starts o = .greeting i → s.links[i]? = some (.greeting lines) →
      Effect cfg s (.greet o line) (s.setLink i (.greeting (lines ++ [line])))
  | sends {a : ClientAction} {o : Owner} {i : Nat} {c c' : Conn} {x : Setup} {rest : List Setup} :
      a.loop = none → GoesOn cfg s o i c (x :: rest) →
      c.step cfg.conn (.exec (inside o.slot) x.cmd [] none x.params) = some c' →
      Effect cfg s a ((s.setLink i (.live c')).setStart o (.setup i (x :: rest)))
  | returns {a : ClientAction} {o : Owner} {i : Nat} {c : Conn} :
      a.loop = none → GoesOn cfg s o i c [] →
      Effect cfg s a ({ s.setLink i (.live c) with conn := some i }.setStart o (.returned i))
  | fails {a : ClientAction} {o : Owner} {i : Nat} {l : Link} {e : StartError} {io : Io}
      {c' : Conn} : a.loop = none → s.links[i]? = some l → Fails s o i l e →
      (l.conn cfg.conn e.lost).step cfg.conn (.close (inside (2 * o.slot)) io) = some c' →
      Effect cfg s a ((s.setLink i (.live c')).setStart o (.failing i e))
  | raises {o : Owner} {i : Nat} {early e : StartError} {c : Conn} :
      s.starts o = .failing i early → s.links[i]? = some (.live c) →
      (e = early ∨ e = .cancelled ∧ CloseCancelled c o) →
      Effect cfg s (.startClosed o) (s.setStart o (.raised e))
  | run {n : Nat} {onReady : Bool} {pc : RunPc} {s' : Client} : (s.runs n).pc.free = true →
      Enters s pc → LoopEffect cfg (s.begin n onReady) n pc s' → Effect cfg s (.run n onReady) s'
  | resumes {n : Nat} {ok : Bool} {pc : RunPc} {s' : Client} :
      ((s.runs n).pc = .starting → (s.starts (.loop n)).free = true) →
      Goes s n ok (s.runs n).pc pc → LoopEffect cfg s n pc s' → Effect cfg s (.resumeRun n ok) s'
  | cancelRun {n : Nat} : (s.runs n).pc ≠ .starting →
      Effect cfg s (.cancelRun n) (s.setRun n .finished)
  /-- `close` without a connection -/
  | stops {io : Io} {call : CloseCall} : s.conn = none → call.mark = s.links.length →
      Effect cfg s (.close io) { s with stopping := true, closes := s.closes ++ [call] }
  | closes {io : Io} {call : CloseCall} {i : Nat} {c c' : Conn} : s.conn = some i →
      s.links[i]? = some (.live c) → call.mark = s.links.length →
      c.step cfg.conn (.close (inside (2 * s.closes.length + 1)) io) = some c' →
      Effect cfg s (.close io)
        { s.setLink i (.live c') with stopping := true, closes := s.closes ++ [call] }
  | closeReturns {k i : Nat} {call call' : CloseCall} : s.closes[k]? = some call →
      call.pc = .waiting i → call'.mark = call.mark →
      Effect cfg s (.closeReturns k) { s with closes := s.closes.set k call' }
  | link {i : Nat} {a : Action} {c c' : Conn} : s.links[i]? = some (.live c) →
      a.outside = true → c.step cfg.conn a = some c' →
      Effect cfg s (.link i a) (s.setLink i (.live c'))

section
variable {cfg : ClientConfig} {s s' : Client} {a : ClientAction} {o : Owner} {n : Nat}

/-! ## `start` -/

theorem GoesOn.effect (ha : a.loop = none) {i : Nat} {c : Conn} {rest : List Setup}
    (h : GoesOn cfg s o i c rest) (hs : s.setupFrom cfg o i c rest = some s') :
    Effect cfg s a s' := by
  cases rest with
  | nil =>
    cases hs
    exact .returns ha h
  | cons x rest =>
    obtain ⟨c', hc', rfl⟩ := Option.map_eq_some_iff.mp hs
    exact .sends ha h hc'

theorem Fails.effect (ha : a.loop = none) {i : Nat} {l : Link} {e : StartError} {io : Io}
    (hl : s.links[i]? = some l) (h : Fails s o i l e)
    (hs : s.failStart cfg o i l e io = some s') : Effect cfg s a s' := by
  obtain ⟨c', hc', rfl⟩ := Option.map_eq_some_iff.mp hs
  exact .fails ha hl h hc'

theorem effect_greet {line : Bytes} (hs : s.greet cfg o line = some s') :
    Effect cfg s (.greet o line) s' := by
  unfold greet at hs
  split at hs
  · rename_i i hstart
    split at hs
    · rename_i lines hl
      split at hs
      · cases hs
        exact .greets hstart hl
      · exact GoesOn.effect rfl (.greeted hstart hl rfl rfl) hs
    · cases hs
  · cases hs

theorem effect_greetFail {e : StartError} {io : Io} (hs : s.greetFail cfg o e io = some s') :
    Effect cfg s (.greetFail o e io) s' := by
  unfold greetFail at hs
  split at hs
  · rename_i i hstart
    split at hs
    · rename_i l hl
      split at hs
      · rename_i he
        exact Fails.effect rfl hl (.greeting hstart he) hs
      · cases hs
    · cases hs
  · cases hs

theorem effect_advance {io : Io} (hs : s.advance cfg o io = some s') :
    Effect cfg s (.advance o io) s' := by
  unfold advance at hs
  split at hs
  · rename_i i x rest hstart
    split at hs
    · rename_i c hl
      have next : ∀ out, (c.execs o.task).pc = .finished out → x.fatal out = false →
          s.setupFrom cfg o i c rest = some s' → Effect cfg s (.advance o io) s' :=
        fun out hpc hout hs => GoesOn.effect rfl (.answered hstart hl hpc hout) hs
      have fail : ∀ out, (c.execs o.task).pc = .finished out → x.fatal out = true →
          s.failStart cfg o i (.live c) (.command out) io = some s' →
          Effect cfg s (.advance o io) s' :=
        fun out hpc hout hs => Fails.effect rfl hl (.command hstart rfl hpc hout) hs
      split at hs
      · exact next _ ‹_› rfl hs
      · rename_i hpc
        split at hs
        · rename_i hcosmetic
          exact next _ hpc (by unfold Setup.fatal; rw [hcosmetic]; rfl) hs
        · rename_i hcosmetic
          rw [Bool.not_eq_true] at hcosmetic
          exact fail _ hpc (by unfold Setup.fatal; rw [hcosmetic]; rfl) hs
      · rename_i out hrows herror hpc
        refine fail out hpc ?_ hs
        cases out with
        | rows r => exact absurd rfl (hrows r)
        | queryError e => exact absurd rfl (herror e)
        | _ => rfl
      · cases hs
    · cases hs
  · cases hs

theorem effect_startClosed (hs : s.startClosed o = some s') :
    Effect cfg s (.startClosed o) s' := by
  unfold startClosed at hs
  split at hs
  · rename_i i early hstart
    split at hs
    · rename_i c hl
      split at hs
      · cases hs
        exact .raises hstart hl (Or.inl rfl)
      · rename_i hpc
        cases hs
        exact .raises hstart hl (Or.inr ⟨rfl, hpc⟩)
      · cases hs
    · cases hs
  · cases hs

/-! ## `run_forever` -/

theorem effect_nextEvent {i : Nat} (hs : s.nextEvent cfg n i = some s') :
    LoopEffect cfg s n (.events i) s' := by
  unfold nextEvent at hs
  split at hs
  · rename_i c hl
    obtain ⟨c', hc', rfl⟩ := Option.map_eq_some_iff.mp hs
    exact .waits hl hc'
  · cases hs

theorem effect_lost (cfg : ClientConfig) (s : Client) (n : Nat) :
    LoopEffect cfg s n .finished (s.lost n) ∨ LoopEffect cfg s n .sleeping (s.lost n) := by
  unfold lost
  split
  · exact Or.inl .stays
  · exact Or.inr .stays

theorem effect_listen (hs : s.listen cfg n = some s') :
    (∃ i, s.conn = some i ∧ LoopEffect cfg s n (.events i) s') ∨
      LoopEffect cfg s n .finished s' ∨ LoopEffect cfg s n .sleeping s' := by
  unfold listen at hs
  split at hs
  · rename_i i hconn
    exact Or.inl ⟨i, hconn, effect_nextEvent hs⟩
  · cases hs
    exact Or.inr (effect_lost cfg s n)

theorem exists_conn_of_connected (h : s.connected = true) : ∃ i, s.conn = some i := by
  unfold connected at h
  cases hc : s.conn with
  | some i => exact ⟨i, rfl⟩
  | none =>
    rw [hc] at h
    cases h

theorem effect_loopHead (hs : s.loopHead cfg n = some s') :
    ∃ pc, Enters s pc ∧ LoopEffect cfg s n pc s' := by
  unfold loopHead at hs
  split at hs
  · cases hs
    exact ⟨_, .ends, .stays⟩
  · rename_i hstopping
    split at hs
    · rename_i hconnected
      obtain ⟨i, hconn⟩ := exists_conn_of_connected hconnected
      unfold listen at hs
      rw [hconn] at hs
      exact ⟨_, .listens (Bool.eq_false_iff.mpr hstopping) hconnected hconn, effect_nextEvent hs⟩
    · rename_i hconnected
      cases hs
      exact ⟨_, .calls (Bool.eq_false_iff.mpr hconnected), .calls⟩

theorem effect_resumeRun {ok : Bool} (hs : s.resumeRun cfg n ok = some s') :
    ((s.runs n).pc = .starting → (s.starts (.loop n)).free = true) ∧
      ∃ pc, Goes s n ok (s.runs n).pc pc ∧ LoopEffect cfg s n pc s' := by
  have lost : (s.runs n).pc.free = false → (s.runs n).pc ≠ .sleeping →
      ∃ pc, Goes s n ok (s.runs n).pc pc ∧ LoopEffect cfg s n pc (s.lost n) := by
    intro hfree hpc
    rcases effect_lost cfg s n with h | h
    · exact ⟨_, .ends, h⟩
    · exact ⟨_, .loses hfree hpc, h⟩
  unfold resumeRun at hs
  split at hs
  · rename_i hpc
    rw [hpc] at lost ⊢
    split at hs
    · rename_i i hstart
      refine ⟨fun _ => by rw [hstart]; rfl, ?_⟩
      split at hs
      · rename_i hready
        cases hs
        exact ⟨_, .onReady hstart hready, .stays⟩
      · rename_i hready
        rcases effect_listen hs with ⟨j, hconn, h⟩ | h | h
        · exact ⟨_, .listens hstart (Bool.eq_false_iff.mpr hready) hconn, h⟩
        · exact ⟨_, .ends, h⟩
        · exact ⟨_, .loses rfl nofun, h⟩
    · rename_i e hstart
      refine ⟨fun _ => by rw [hstart]; rfl, ?_⟩
      split at hs <;> cases hs
      · exact ⟨_, .ends, .stays⟩
      · exact lost rfl nofun
    · cases hs
  · rename_i i hpc
    rw [hpc] at lost ⊢
    refine ⟨nofun, ?_⟩
    split at hs
    · rename_i hok
      rcases effect_listen hs with ⟨j, hconn, h⟩ | h | h
      · exact ⟨_, .ready hok hconn, h⟩
      · exact ⟨_, .ends, h⟩
      · exact ⟨_, .loses rfl nofun, h⟩
    · cases hs
      exact lost rfl nofun
  · rename_i i hpc
    rw [hpc] at lost ⊢
    refine ⟨nofun, ?_⟩
    split at hs
    · split at hs
      · cases hs
        exact ⟨_, .event, .stays⟩
      · cases hs
        exact ⟨_, .ends, .stays⟩
      · cases hs
        exact lost rfl nofun
      · cases hs
    · cases hs
  · rename_i i hpc
    rw [hpc]
    exact ⟨nofun, _, .handled, effect_nextEvent hs⟩
  · rename_i hpc
    rw [hpc]
    obtain ⟨pc, henters, h⟩ := effect_loopHead hs
    exact ⟨nofun, pc, .enters henters, h⟩
  · cases hs

/-- **What a step of a client is.** -/
theorem step_cases (hs : s.step cfg a = some s') : Effect cfg s a s' := by
  cases a with
  | start n =>
    simp only [step] at hs
    split at hs
    · rename_i hfree
      cases hs
      exact .start hfree
    · cases hs
  | connected o =>
    simp only [step] at hs
    split at hs
    · rename_i hstart
      cases hs
      exact .connected hstart
    · cases hs
  | refused o e =>
    simp only [step] at hs
    split at hs
    · rename_i hstart
      split at hs <;> cases hs
      rename_i he
      exact .refused hstart he
    · cases hs
  | greet o line => exact effect_greet hs
  | greetFail o e io => exact effect_greetFail hs
  | advance o io => exact effect_advance hs
  | startClosed o => exact effect_startClosed hs
  | run n onReady =>
    simp only [step] at hs
    split at hs
    · rename_i hfree
      obtain ⟨pc, henters, h⟩ := effect_loopHead (s := s.begin n onReady) hs
      refine .run hfree ?_ h
      cases henters with
      | listens h1 h2 h3 => exact .listens h1 h2 h3
      | calls h1 => exact .calls h1
      | ends => exact .ends
    · cases hs
  | resumeRun n ok =>
    obtain ⟨hstart, pc, hgoes, h⟩ := effect_resumeRun hs
    exact .resumes hstart hgoes h
  | cancelRun n =>
    simp only [step] at hs
    have hpc : (s.runs n).pc ≠ .starting := by
      intro hpc
      rw [hpc] at hs
      cases hs
    split at hs <;> cases hs <;> exact .cancelRun hpc
  | close io =>
    simp only [step, close] at hs
    split at hs
    · rename_i hconn
      cases hs
      exact .stops hconn rfl
    · rename_i i hconn
      split at hs
      · rename_i c hl
        obtain ⟨c', hc', rfl⟩ := Option.map_eq_some_iff.mp hs
        exact .closes hconn hl rfl hc'
      · cases hs
  | closeReturns k =>
    simp only [step, closeReturns] at hs
    split at hs
    · rename_i call hcall
      split at hs
      · rename_i i hpc
        split at hs
        · split at hs <;> cases hs
          · exact .closeReturns hcall hpc rfl
          · exact .closeReturns hcall hpc rfl
        · cases hs
      · cases hs
    · cases hs
  | link i a =>
    simp only [step] at hs
    split at hs
    · rename_i c hl
      split at hs
      · rename_i hout
        obtain ⟨c', hc', rfl⟩ := Option.map_eq_some_iff.mp hs
        exact .link hl hout hc'
      · cases hs
    · cases hs

/-! ## what follows at once -/

theorem lt_of_getElem?_eq_some {i : Nat} {l : Link} (h : s.links[i]? = some l) :
    i < s.links.length := (List.getElem?_eq_some_iff.mp h).1

theorem GoesOn.link {i : Nat} {c : Conn} {rest : List Setup} (h : GoesOn cfg s o i c rest) :
    (s.starts o).link = some i ∧
      ∃ l, s.links[i]? = some l ∧ (l.closed = true → c.closed = true) := by
  cases h with
  | greeted hstart hl _ _ =>
    rw [hstart]
    exact ⟨rfl, _, hl, nofun⟩
  | answered hstart hl _ _ =>
    rw [hstart]
    exact ⟨rfl, _, hl, id⟩

theorem Fails.link {i : Nat} {l : Link} {e : StartError} (h : Fails s o i l e) :
    (s.starts o).link = some i := by
  cases h with
  | greeting hstart _ => rw [hstart]; rfl
  | command hstart _ _ _ => rw [hstart]; rfl

theorem busy_of_resumeRun {ok : Bool} (hs : s.resumeRun cfg n ok = some s') :
    (s.runs n).pc.free = false := by
  unfold resumeRun at hs
  cases hpc : (s.runs n).pc with
  | idle => rw [hpc] at hs; cases hs
  | finished => rw [hpc] at hs; cases hs
  | _ => rfl

theorem cancelRun_cases (hs : s.step cfg (.cancelRun n) = some s') :
    (∀ i, (s.runs n).pc ≠ .events i) ∧ (s.runs n).pc.free = false ∧ s' = s.setRun n .finished := by
  simp only [step] at hs
  split at hs <;> cases hs <;> rename_i hpc <;>
    exact ⟨(fun i hi => by cases hpc.symm.trans hi), (by rw [hpc]; rfl), rfl⟩

theorem Goes.busy {ok : Bool} {pc pc' : RunPc} (h : Goes s n ok pc pc') :
    pc.free = false ∨ pc' = .finished := by
  cases h with
  | loses hfree _ => exact Or.inl hfree
  | ends => exact Or.inr rfl
  | _ => exact Or.inl rfl

theorem closed_of_step {c c' : Conn} {k : Nat} {io : Io}
    (hs : c.step cfg.conn (.close k io) = some c') : c'.closed = true := by
  cases Conn.step_cases hs with
  | close _ => exact Conn.closeCall_closed ..
  | feed hfa _ => cases hfa

end

end Client
end Atsq
