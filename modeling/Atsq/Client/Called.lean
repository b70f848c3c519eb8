import Atsq.Client.Start

/-!
# Every call of `start`

* `StartMove`     what a step can do to one `start`;
* `Moves`         what it does to all of them, to the loops and to `_conn`;
* `Called`        a call with a transport: under way, failed and closed, or returned;
* `AllOrNothing`  what `start` promises, of all its calls.

Main result: `start_all_or_nothing`.
-/

namespace Atsq
open Py

/-- the command for a registration -/
def Registers (item : EventRegistration) (x : Setup) : Prop :=
  x.cmd = lit "servernotifyregister" ∧ x.cosmetic = false ∧
    match item with
    | .event event =>
      x.params = [(lit "event", .scalar (.text event)), (lit "id", .scalar .none)]
    | .anchored event channelId =>
      x.params = [(lit "event", .scalar (.text event)), (lit "id", .scalar (channelId.getD .none))]

/-- one command with one argument, if it is given -/
def Selects (cmd key : Str) (value : Option Scalar) (xs : List Setup) : Prop :=
  ∀ v, value = some v → xs.map (fun x => (x.cmd, x.params)) = [(cmd, [(key, .scalar v)])]

structure Uses (args : ClientArgs) (xs : List Setup) : Prop where
  sid : Selects (lit "use") (lit "sid") args.serverId xs
  port : Selects (lit "use") (lit "port") args.serverPort xs
  none : args.serverId = none → args.serverPort = none → xs = []
  strict : ∀ x ∈ xs, x.cosmetic = false

structure Names (args : ClientArgs) (xs : List Setup) : Prop where
  nickname : Selects (lit "clientupdate") (lit "client_nickname")
    (args.nickname.map Scalar.text) xs
  none : args.nickname = none → xs = []
  cosmetic : ∀ x ∈ xs, x.cosmetic = true

/-- `use`, `clientupdate`, and one `servernotifyregister` for each registration, in this order, with
the arguments of the client -/
def Ordered (args : ClientArgs) (xs : List Setup) : Prop :=
  ∃ use nickname register, xs = use ++ nickname ++ register ∧ Uses args use ∧
    Names args nickname ∧ List.Forall₂ Registers args.registerEvents.items register

theorem uses_use {args : ClientArgs} {cfg : ClientConfig} (h : args.init = some cfg) :
    Uses args cfg.use := by
  unfold ClientArgs.init at h
  split at h <;> cases h
  rename_i hboth
  unfold ClientConfig.use
  cases hsid : args.serverId with
  | some sid =>
    cases hport : args.serverPort with
    | some port => exact absurd (by rw [hsid, hport]; rfl) hboth
    | none => constructor <;> simp [Selects, hsid, hport]
  | none => cases hport : args.serverPort <;> constructor <;> simp [Selects, hsid, hport]

theorem ordered_setup {args : ClientArgs} {cfg : ClientConfig} (h : args.init = some cfg) :
    Ordered args cfg.setup := by
  refine ⟨_, _, _, rfl, uses_use h, ?_, ?_⟩
  all_goals
    unfold ClientArgs.init at h
    split at h <;> cases h
  · cases hnick : args.nickname <;> constructor <;> simp [Selects, hnick]
  · unfold normalizeRegistrations
    simp only [List.map_map, List.forall₂_map_right_iff, List.forall₂_same]
    intro item _
    cases item <;> exact ⟨rfl, rfl, rfl⟩

namespace Client

inductive StartMove (s s' : Client) (a : ClientAction) (o : Owner) : Prop where
  | still : s'.starts o = s.starts o → StartMove s s' a o
  | calls : (s.starts o).free = true → s'.starts o = .factory → s'.links = s.links →
      StartMove s s' a o
  | connects : a = .connected o → s.starts o = .factory →
      s'.starts o = .greeting s.links.length → s'.links = s.links ++ [.greeting []] →
      StartMove s s' a o
  | refused {e : StartError} : a = .refused o e → e.ofFactory = true → s.starts o = .factory →
      s'.starts o = .raised e → s'.links = s.links → StartMove s s' a o
  | goesOn {i : Nat} : (s.starts o).link = some i → (s'.starts o).link = some i →
      StartMove s s' a o
  | returns {i : Nat} : (s.starts o).link = some i → s'.starts o = .returned i →
      s'.conn = some i → StartMove s s' a o
  | raises {i : Nat} {early e : StartError} {c : Conn} : s.starts o = .failing i early →
      s.links[i]? = some (.live c) → s'.starts o = .raised e →
      (e = early ∨ e = .cancelled ∧ CloseCancelled c o) → s'.links = s.links →
      StartMove s s' a o

/-- while the `start` of a loop is under way, the loop waits for it -/
def Owned (s : Client) : Prop :=
  ∀ n, (s.starts (.loop n)).free = false → (s.runs n).pc = .starting

/-- a `start` returns, its connection being the installed one -/
def Returns (s s' : Client) (o : Owner) : Prop :=
  ∃ i, (s.starts o).link = some i ∧ s'.starts o = .returned i ∧ s'.conn = some i

structure Moves (s s' : Client) (a : ClientAction) : Prop where
  starts : ∀ o, StartMove s s' a o
  conn : s'.conn = s.conn ∨ ∃ o, Returns s s' o
  owned : Owned s'
  runs : ∀ n, a.loop ≠ some n → s'.runs n = s.runs n

section
variable {cfg : ClientConfig} {s s' : Client} {a : ClientAction} {o : Owner}

theorem Moves.of_start (h : Owned s) (hbusy : (s.starts o).free = false) (hruns : s'.runs = s.runs)
    (hother : ∀ t, t ≠ o → s'.starts t = s.starts t) (hmove : StartMove s s' a o)
    (hconn : s'.conn = s.conn ∨ Returns s s' o) : Moves s s' a := by
  refine ⟨fun t => ?_, hconn.imp id fun hr => ⟨o, hr⟩, fun n hn => ?_, fun n _ => by rw [hruns]⟩
  · by_cases hto : t = o
    · exact hto ▸ hmove
    · exact .still (hother t hto)
  · rw [hruns]
    by_cases hto : Owner.loop n = o
    · exact h n (hto ▸ hbusy)
    · rw [hother _ hto] at hn
      exact h n hn

theorem Moves.of_run (h : Owned s) {n : Nat} (ha : a.loop = some n)
    (hfree : (s.starts (.loop n)).free = true)
    (hstarts : s'.starts = s.starts) (hconn : s'.conn = s.conn)
    (hother : ∀ m, m ≠ n → s'.runs m = s.runs m) : Moves s s' a := by
  refine ⟨fun t => .still (by rw [hstarts]), Or.inl hconn, fun m hm => ?_,
    fun m hm => hother m fun e => hm (e ▸ ha)⟩
  rw [hstarts] at hm
  by_cases hmn : m = n
  · rw [hmn, hfree] at hm
    cases hm
  · rw [hother m hmn]
    exact h m hm

theorem Moves.of_same (h : Owned s) (hstarts : s'.starts = s.starts) (hconn : s'.conn = s.conn)
    (hruns : s'.runs = s.runs) : Moves s s' a := by
  refine ⟨fun t => .still (by rw [hstarts]), Or.inl hconn, fun n hn => ?_, fun n _ => by rw [hruns]⟩
  rw [hruns]
  exact h n (hstarts ▸ hn)

theorem Moves.of_call (h : Owned s) {n : Nat} (ha : a.loop = some n)
    (hfree : (s.starts (.loop n)).free = true)
    (hlinks : s'.links = s.links) (hconn : s'.conn = s.conn)
    (hstarts : s'.starts = Function.update s.starts (.loop n) .factory)
    (hpc : (s'.runs n).pc = .starting) (hother : ∀ m, m ≠ n → s'.runs m = s.runs m) :
    Moves s s' a := by
  refine ⟨fun t => ?_, Or.inl hconn, fun m hm => ?_, fun m hm => hother m fun e => hm (e ▸ ha)⟩
  · by_cases hto : t = .loop n
    · subst hto
      exact .calls hfree (by rw [hstarts, Function.update_self]) hlinks
    · exact .still (by rw [hstarts, Function.update_of_ne hto])
  · by_cases hmn : m = n
    · exact hmn ▸ hpc
    · rw [hstarts, Function.update_of_ne (fun e => hmn (Owner.loop.inj e))] at hm
      rw [hother m hmn]
      exact h m hm

/-! ## every step -/

theorem Owned.free (h : Owned s) {n : Nat} (hpc : (s.runs n).pc ≠ .starting) :
    (s.starts (.loop n)).free = true := by
  by_contra hn
  exact hpc (h n (Bool.eq_false_iff.mpr hn))

theorem Moves.of_loop (h : Owned s) {n : Nat} (ha : a.loop = some n)
    (hfree : (s.starts (.loop n)).free = true) {pc : RunPc} (hs : LoopEffect cfg s n pc s') :
    Moves s s' a := by
  cases hs with
  | stays => exact .of_run h ha hfree rfl rfl fun _ hm => Function.update_of_ne hm ..
  | waits _ _ => exact .of_run h ha hfree rfl rfl fun _ hm => Function.update_of_ne hm ..
  | calls =>
    refine .of_call h ha hfree rfl rfl rfl ?_ fun _ hm => Function.update_of_ne hm ..
    show (Function.update s.runs n { s.runs n with pc := .starting } n).pc = .starting
    rw [Function.update_self]

theorem Moves.congr {s₁ : Client} (h : Moves s₁ s' a) (hstarts : s₁.starts = s.starts)
    (hlinks : s₁.links = s.links) (hconn : s₁.conn = s.conn)
    (hruns : ∀ n, a.loop ≠ some n → s₁.runs n = s.runs n) : Moves s s' a := by
  obtain ⟨h1, h2, h3, h4⟩ := h
  refine ⟨fun o => ?_, ?_, h3, fun n hn => (h4 n hn).trans (hruns n hn)⟩
  · cases h1 o with
    | still he => exact .still (by rw [he, hstarts])
    | calls hf hs hl => exact .calls (hstarts ▸ hf) hs (hl.trans hlinks)
    | connects ha hf hs hl =>
      rw [hlinks] at hs hl
      exact .connects ha (hstarts ▸ hf) hs hl
    | refused ha he hf hs hl => exact .refused ha he (hstarts ▸ hf) hs (hl.trans hlinks)
    | goesOn hf hs => exact .goesOn (hstarts ▸ hf) hs
    | returns hf hs hc => exact .returns (hstarts ▸ hf) hs hc
    | raises hf hc hs he hl =>
      exact .raises (hstarts ▸ hf) (hlinks ▸ hc) hs he (hl.trans hlinks)
  · rw [← hconn]
    refine h2.imp id fun ⟨o, i, hi, hs, hc⟩ => ⟨o, i, hstarts ▸ hi, hs, hc⟩

/-- **What a step does to the calls of `start`, to the loops and to `_conn`.** -/
theorem step_moves (h : Owned s) (hs : s.step cfg a = some s') : Moves s s' a := by
  have self : ∀ (o : Owner) (pc : StartPc), Function.update s.starts o pc o = pc := fun _ _ =>
    Function.update_self ..
  cases step_cases hs with
  | @start n hfree =>
    have hother : ∀ t, t ≠ .user n → (s.called.setStart (.user n) .factory).starts t = s.starts t :=
      fun t ht => Function.update_of_ne ht ..
    refine ⟨fun t => ?_, Or.inl rfl, fun m hm => ?_, fun _ _ => rfl⟩
    · by_cases hto : t = .user n
      · subst hto
        exact .calls hfree (self _ _) rfl
      · exact .still (hother t hto)
    · rw [hother (.loop m) (by intro he; cases he)] at hm
      exact h m hm
  | connected hstart =>
    exact .of_start h (by rw [hstart]; rfl) rfl (fun t ht => Function.update_of_ne ht ..)
      (.connects rfl hstart (self _ _) rfl) (Or.inl rfl)
  | refused hstart he =>
    exact .of_start h (by rw [hstart]; rfl) rfl (fun t ht => Function.update_of_ne ht ..)
      (.refused rfl he hstart (self _ _) rfl) (Or.inl rfl)
  | greets _ _ => exact .of_same h rfl rfl rfl
  | @sends _ o i _ _ x rest _ hgoes _ =>
    have ho := hgoes.link.1
    refine .of_start h (StartPc.busy_of_link ho) rfl (fun t ht => Function.update_of_ne ht ..)
      (.goesOn ho ?_) (Or.inl rfl)
    show (Function.update s.starts o (.setup i (x :: rest)) o).link = some i
    rw [self]
    rfl
  | @returns _ o i _ _ hgoes =>
    have ho := hgoes.link.1
    exact .of_start h (StartPc.busy_of_link ho) rfl (fun t ht => Function.update_of_ne ht ..)
      (.returns ho (self _ _) rfl) (Or.inr ⟨i, ho, self _ _, rfl⟩)
  | @fails _ o i _ e _ _ _ _ hfails _ =>
    have ho := hfails.link
    refine .of_start h (StartPc.busy_of_link ho) rfl (fun t ht => Function.update_of_ne ht ..)
      (.goesOn ho ?_) (Or.inl rfl)
    show (Function.update s.starts o (.failing i e) o).link = some i
    rw [self]
    rfl
  | raises hstart hl he =>
    exact .of_start h (by rw [hstart]; rfl) rfl (fun t ht => Function.update_of_ne ht ..)
      (.raises hstart hl (self _ _) he rfl) (Or.inl rfl)
  | @run n onReady _ _ hfree _ hloop =>
    have hidle : (s.starts (.loop n)).free = true :=
      h.free fun hpc => by rw [hpc] at hfree; cases hfree
    have h₁ : Moves s (s.begin n onReady) (.run n onReady) :=
      .of_run h rfl hidle rfl rfl fun _ hm => Function.update_of_ne hm ..
    exact (Moves.of_loop h₁.owned rfl hidle hloop).congr rfl rfl rfl h₁.runs
  | @resumes n _ _ _ hstart _ hloop =>
    by_cases hpc : (s.runs n).pc = .starting
    · exact .of_loop h rfl (hstart hpc) hloop
    · exact .of_loop h rfl (h.free hpc) hloop
  | cancelRun hpc =>
    exact .of_run h rfl (h.free hpc) rfl rfl fun _ hm => Function.update_of_ne hm ..
  | stops _ _ => exact .of_same h rfl rfl rfl
  | closes _ _ _ _ => exact .of_same h rfl rfl rfl
  | closeReturns _ _ _ => exact .of_same h rfl rfl rfl
  | link _ _ _ => exact .of_same h rfl rfl rfl

/-! ## the calls -/

/-- a call of `start` on its connection: under way, failed with the connection closed and the
exception that failed it, or returned with all commands passed and the connection installed -/
inductive Called (cfg : ClientConfig) (o : Owner) (i : Nat) (s : Client) : Prop where
  | underWay : (s.starts o).link = some i → Called cfg o i s
  | raised {early e : StartError} {c : Conn} : s.starts o = .raised e →
      s.links[i]? = some (.live c) → c.closed = true → c.Failed cfg o.task early →
      (e = early ∨ e = .cancelled ∧ CloseCancelled c o) → Called cfg o i s
  | returned {c : Conn} : s.starts o = .returned i → s.conn = some i →
      s.links[i]? = some (.live c) → c.Complete cfg o.task → Called cfg o i s

theorem Called.step (ht : Tidy cfg s) (h : Owned s) {i : Nat} (hcalled : Called cfg o i s)
    (hbusy : (s.starts o).free = false) (hs : s.step cfg a = some s') : Called cfg o i s' := by
  have hlink : (s.starts o).link = some i := by
    cases hcalled with
    | underWay hlink => exact hlink
    | raised hstart _ _ _ _ =>
      rw [hstart] at hbusy
      cases hbusy
    | returned hstart _ _ _ =>
      rw [hstart] at hbusy
      cases hbusy
  have hfactory : s.starts o ≠ .factory := by
    intro hf
    rw [hf] at hlink
    cases hlink
  cases (step_moves h hs).starts o with
  | still he => exact .underWay (he ▸ hlink)
  | calls hf _ _ =>
    rw [hbusy] at hf
    cases hf
  | connects _ hf _ _ => exact absurd hf hfactory
  | refused _ _ hf _ _ => exact absurd hf hfactory
  | goesOn hf hs =>
    rw [hlink] at hf
    cases hf
    exact .underWay hs
  | returns hf hret hconn =>
    rw [hlink] at hf
    cases hf
    obtain ⟨c, hl, hcomplete, _⟩ := (step_keeps ht hs).tidy.returned o i hret
    exact .returned hret hconn hl hcomplete
  | raises hf hl hraised he hlinks =>
    rw [hf] at hlink
    cases hlink
    have hphase := ht.phase o i (by rw [hf]; rfl)
    rw [hf] at hphase
    cases hphase with
    | failing hl' hclosed hfailed =>
      rw [hl] at hl'
      cases hl'
      exact .raised hraised (hlinks ▸ hl) hclosed hfailed he

/-! ## every run -/

/-- while the call of `o` is under way, and no other call returns -/
def Alone (cfg : ClientConfig) (o : Owner) (s : Client) (a : ClientAction) : Prop :=
  (s.starts o).free = false ∧ ∀ t s', t ≠ o → s.step cfg a = some s' → ¬ Returns s s' t

structure AllOrNothing (cfg : ClientConfig) (s : Client) : Prop where
  /-- the commands are sent in their order, each after the previous one passed -/
  underWay : ∀ o i, (s.starts o).link = some i → Phase cfg s o (s.starts o)
  installed : ∀ i, s.conn = some i → SetUp cfg s i
  /-- without a transport there is no connection -/
  factory : ∀ o a s', s.starts o = .factory → s.step cfg a = some s' →
    s'.starts o = .factory ∨ a = .connected o ∨
      ∃ e, e.ofFactory = true ∧ s'.starts o = .raised e ∧ s'.links = s.links ∧ s'.conn = s.conn
  /-- what becomes of a call that got its transport -/
  connected : ∀ o s₁ t, s.step cfg (.connected o) = some s₁ →
    Sys.Reach (step cfg) (fun u _ => (u.starts o).free = false) s₁ t → Called cfg o s.links.length t
  /-- `_conn` stays unless the call returns -/
  kept : ∀ o t, Sys.Reach (step cfg) (Alone cfg o) s t →
    t.conn = s.conn ∨ ∃ i, t.starts o = .returned i
  order : ∀ args : ClientArgs, args.init = some cfg → Ordered args cfg.setup

theorem owned_init : Owned {} := fun _ => nofun

theorem tidy_of_reach {C : Client → ClientAction → Prop} (ht : Tidy cfg s) (h : Owned s)
    (hr : Sys.Reach (step cfg) C s s') : Tidy cfg s' ∧ Owned s' :=
  hr.inv (I := fun s => Tidy cfg s ∧ Owned s) ⟨ht, h⟩ fun _ _ _ hi _ hs =>
    ⟨(step_keeps hi.1 hs).tidy, (step_moves hi.2 hs).owned⟩

theorem called_of_reach (ht : Tidy cfg s) (h : Owned s) {s₁ t : Client}
    (hs : s.step cfg (.connected o) = some s₁)
    (hr : Sys.Reach (step cfg) (fun u _ => (u.starts o).free = false) s₁ t) :
    Called cfg o s.links.length t := by
  have ht₁ := (step_keeps ht hs).tidy
  have h₁ := (step_moves h hs).owned
  have hcalled : Called cfg o s.links.length s₁ := by
    simp only [step] at hs
    split at hs <;> cases hs
    refine .underWay ?_
    show (Function.update s.starts o (.greeting s.links.length) o).link = some s.links.length
    rw [Function.update_self]
    rfl
  have hall := hr.inv (I := fun u => (Tidy cfg u ∧ Owned u) ∧ Called cfg o s.links.length u)
    ⟨⟨ht₁, h₁⟩, hcalled⟩ fun u _ _ hi hbusy hs =>
      ⟨⟨(step_keeps hi.1.1 hs).tidy, (step_moves hi.1.2 hs).owned⟩,
        hi.2.step hi.1.1 hi.1.2 hbusy hs⟩
  exact hall.2

theorem conn_of_alone (h : Owned s) {t : Client} (hr : Sys.Reach (step cfg) (Alone cfg o) s t) :
    t.conn = s.conn ∨ ∃ i, t.starts o = .returned i := by
  have hall := hr.inv
    (I := fun u => Owned u ∧ (u.conn = s.conn ∨ ∃ i, u.starts o = .returned i)) ⟨h, Or.inl rfl⟩
    fun u a u' hi halone hs => by
      have hmoves := step_moves hi.1 hs
      refine ⟨hmoves.owned, ?_⟩
      have hconn : u.conn = s.conn := by
        rcases hi.2 with hconn | ⟨i, hret⟩
        · exact hconn
        · have hbusy := halone.1
          rw [hret] at hbusy
          cases hbusy
      rcases hmoves.conn with hsame | ⟨t, hreturns⟩
      · exact Or.inl (hsame.trans hconn)
      · by_cases hto : t = o
        · obtain ⟨i, _, hret, _⟩ := hreturns
          exact Or.inr ⟨i, hto ▸ hret⟩
        · exact absurd hreturns (halone.2 t u' hto hs)
  exact hall.2

/-- **`start` is all or nothing**, in every run of a client. -/
theorem start_all_or_nothing (h : Sys.Reach (step cfg) (fun _ _ => True) {} s) :
    AllOrNothing cfg s := by
  obtain ⟨ht, howned⟩ := tidy_of_reach tidy_init owned_init h
  refine ⟨ht.phase, ht.installed, fun p b t hf hs => ?_, fun _ _ _ => called_of_reach ht howned,
    fun _ _ => conn_of_alone howned, fun _ => ordered_setup⟩
  have hmoves := step_moves howned hs
  cases hmoves.starts p with
  | still he => exact Or.inl (he.trans hf)
  | calls _ he _ => exact Or.inl he
  | connects ha _ _ _ => exact Or.inr (Or.inl ha)
  | refused ha hfactory _ he hl =>
    refine Or.inr (Or.inr ⟨_, hfactory, he, hl, ?_⟩)
    cases ha
    simp only [step, hf, hfactory, if_true] at hs
    cases hs
    rfl
  | goesOn hlink _ =>
    rw [hf] at hlink
    cases hlink
  | returns hlink _ _ =>
    rw [hf] at hlink
    cases hlink
  | raises he _ _ _ _ =>
    rw [hf] at he
    cases he

end

def botConfig : ClientConfig :=
  { serverId := some (.text (lit "1"))
    nickname := some (lit "bot")
    registerEvents := [(lit "server", none)] }

/-- the answer to the command under way -/
def answered (line : Bytes) : List ClientAction :=
  [.link 0 (.acquire (.task 0) .done), .link 0 (.recv line), .link 0 (.resume (.task 0) {}),
    .advance (.user 0) {}]

def greeted : List ClientAction :=
  [.start 0, .connected (.user 0), .greet (.user 0) (ascii "TS3"), .greet (.user 0) (ascii "Hi")]

def nicknameRun : List ClientAction :=
  greeted ++ answered (ascii "error id=0 msg=ok") ++
    answered (ascii "error id=513 msg=nickname\\sis\\salready\\sin\\suse") ++
    answered (ascii "error id=0 msg=ok")

def noServerRun : List ClientAction :=
  greeted ++ answered (ascii "error id=1024 msg=invalid\\sserverID") ++ [.startClosed (.user 0)]

/-- a call that returns although the nickname is taken, and one that raises -/
theorem start_all_or_nothing_nickname :
    (∃ s, Sys.run (step botConfig) {} nicknameRun = some s ∧ s.conn = some 0 ∧
      s.connected = true ∧ AllOrNothing botConfig s) ∧
    ∃ s, Sys.run (step botConfig) {} noServerRun = some s ∧ s.conn = none ∧
      s.links.map Link.closed = [true] ∧ AllOrNothing botConfig s := by
  constructor
  · obtain ⟨s, hs, h⟩ := Sys.exists_reach (step botConfig) (fun _ _ => True) {} nicknameRun
      (fun _ _ => trivial) (by decide +kernel)
    refine ⟨s, hs, Sys.eq_of_run_map (f := fun s : Client => s.conn) hs (by decide +kernel),
      Sys.eq_of_run_map (f := fun s : Client => s.connected) hs (by decide +kernel),
      start_all_or_nothing h⟩
  · obtain ⟨s, hs, h⟩ := Sys.exists_reach (step botConfig) (fun _ _ => True) {} noServerRun
      (fun _ _ => trivial) (by decide +kernel)
    refine ⟨s, hs, Sys.eq_of_run_map (f := fun s : Client => s.conn) hs (by decide +kernel),
      Sys.eq_of_run_map (f := fun s : Client => s.links.map Link.closed) hs (by decide +kernel),
      start_all_or_nothing h⟩

end Client
end Atsq
