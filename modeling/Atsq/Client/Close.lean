import Atsq.Client.Step

/-!
# Is `Client.close` final?

* `Stopped s call`   what `close` promises: no connection is open, none is installed open, and no
                     `run_forever` goes on with a connection that came later;
* `CloseSafe s a`    `close` is called only while no connection but the installed one is open, and
                     no `start` gets its transport before somebody calls `start` or `run_forever`
                     again.

Main results: `close_is_final`, and `close_during_start`, a run that breaks it.
-/

namespace Atsq
open Py

/-- `close` was called, and nothing since it returned -/
def CloseCall.standing (call : CloseCall) : Bool :=
  match call.pc with
  | .waiting _ => true
  | .returned => call.quiet
  | .cancelled => false

namespace Client

structure Stopped (s : Client) (call : CloseCall) : Prop where
  closed : ∀ l ∈ s.links, l.closed = true
  notConnected : s.connected = false
  loops : ∀ n i, (s.runs n).pc.on = some i → i < call.mark

structure CloseSafe (s : Client) (a : ClientAction) : Prop where
  /-- when `close` is called, no connection but the installed one is open -/
  installed : ∀ io, a = .close io →
    ∀ i l, s.links[i]? = some l → l.closed = false → s.conn = some i
  /-- and no `start` gets its transport after that -/
  connected : ∀ o, a = .connected o → ∀ call ∈ s.closes, call.standing = false

/-- the indices are those of connections, and while a `close` stands all connections are closed and
none is new -/
structure Ok (s : Client) : Prop where
  standing : ∀ call ∈ s.closes, call.standing = true →
    call.mark = s.links.length ∧ ∀ l ∈ s.links, l.closed = true
  conn : ∀ i, s.conn = some i → i < s.links.length
  starts : ∀ o i, s.starts o = .returned i → i < s.links.length
  runs : ∀ n i, (s.runs n).pc.on = some i → i < s.links.length

/-! ## what keeps the invariant -/

variable {cfg : ClientConfig} {s s' : Client}

theorem Ok.setLink (h : Ok s) {i : Nat} {l : Link} (l' : Link) (hl : s.links[i]? = some l)
    (hc : l.closed = true → l'.closed = true) : Ok (s.setLink i l') := by
  have hlen : (s.setLink i l').links.length = s.links.length := List.length_set
  refine ⟨fun call hcall hst => ?_, fun j hj => ?_, fun o j hj => ?_, fun n j hj => ?_⟩
  · obtain ⟨hmark, hclosed⟩ := h.standing call hcall hst
    refine ⟨hmark.trans hlen.symm, fun m hm => ?_⟩
    rcases List.mem_or_eq_of_mem_set hm with hm | rfl
    · exact hclosed m hm
    · exact hc (hclosed l (List.mem_of_getElem? hl))
  · rw [hlen]; exact h.conn j hj
  · rw [hlen]; exact h.starts o j hj
  · rw [hlen]; exact h.runs n j hj

theorem Ok.setStart (h : Ok s) (o : Owner) {pc : StartPc}
    (hpc : ∀ i, pc = .returned i → i < s.links.length) : Ok (s.setStart o pc) := by
  refine ⟨h.standing, h.conn, fun t i hi => ?_, h.runs⟩
  by_cases ht : t = o
  · rw [ht] at hi
    exact hpc i ((Function.update_self ..).symm.trans hi)
  · exact h.starts t i ((Function.update_of_ne ht ..).symm.trans hi)

theorem Ok.update (h : Ok s) (n : Nat) {r : Run}
    (hr : ∀ i, r.pc.on = some i → i < s.links.length) :
    Ok { s with runs := Function.update s.runs n r } := by
  refine ⟨h.standing, h.conn, h.starts, fun m i hi => ?_⟩
  by_cases hm : m = n
  · rw [hm] at hi
    exact hr i ((congrArg (fun r : Run => r.pc.on) (Function.update_self ..)).symm.trans hi)
  · have hrun : (Function.update s.runs n r m).pc = (s.runs m).pc :=
      congrArg Run.pc (Function.update_of_ne hm ..)
    exact h.runs m i ((congrArg RunPc.on hrun).symm.trans hi)

theorem Ok.setRun (h : Ok s) (n : Nat) {pc : RunPc}
    (hpc : ∀ i, pc.on = some i → i < s.links.length) : Ok (s.setRun n pc) := h.update n hpc

theorem Ok.called (h : Ok s) : Ok s.called := by
  refine ⟨fun call hcall hst => ?_, h.conn, h.starts, h.runs⟩
  obtain ⟨c, hc, rfl⟩ := List.mem_map.mp hcall
  refine h.standing c hc ?_
  unfold CloseCall.standing at hst ⊢
  cases hpc : c.pc with
  | waiting i => rfl
  | returned => rw [hpc] at hst; cases hst
  | cancelled => rw [hpc] at hst; cases hst

/-! ## every step -/

theorem Ok.stepLink (h : Ok s) {i : Nat} {c c' : Conn} {a : Action}
    (hl : s.links[i]? = some (.live c)) (hs : c.step cfg.conn a = some c') :
    Ok (s.setLink i (.live c')) := h.setLink (.live c') hl fun hc => Conn.step_closed hs hc

theorem Ok.loop (h : Ok s) {n : Nat} {pc : RunPc}
    (hpc : ∀ i, pc.on = some i → i < s.links.length) (hs : LoopEffect cfg s n pc s') : Ok s' := by
  cases hs with
  | stays => exact h.setRun n hpc
  | waits hl hc' =>
    refine (h.stepLink hl hc').setRun n fun j hj => ?_
    cases hj
    exact List.length_set.symm ▸ lt_of_getElem?_eq_some hl
  | calls => exact (h.setStart (.loop n) fun i hi => by cases hi).setRun n fun i hi => by cases hi

theorem Ok.enters (h : Ok s) {pc : RunPc} (henters : Enters s pc) {i : Nat}
    (hi : pc.on = some i) : i < s.links.length := by
  cases henters with
  | listens _ _ hconn =>
    cases hi
    exact h.conn _ hconn
  | calls _ => cases hi
  | ends => cases hi

theorem Ok.goes (h : Ok s) {n : Nat} {ok : Bool} {pc : RunPc} (hgoes : Goes s n ok (s.runs n).pc pc)
    {i : Nat} (hi : pc.on = some i) : i < s.links.length := by
  have hold := h.runs n
  generalize (s.runs n).pc = old at hgoes hold
  cases hgoes with
  | onReady hstart _ =>
    cases hi
    exact h.starts _ _ hstart
  | listens _ _ hconn =>
    cases hi
    exact h.conn _ hconn
  | ready _ hconn =>
    cases hi
    exact h.conn _ hconn
  | event => exact hold i hi
  | handled => exact hold i hi
  | enters henters => exact h.enters henters hi
  | loses _ _ => cases hi
  | ends => cases hi

theorem Ok.addClose (h : Ok s) {call : CloseCall} (hmark : call.mark = s.links.length)
    (hall : ∀ l ∈ s.links, l.closed = true) : Ok { s with closes := s.closes ++ [call] } := by
  refine ⟨fun other hother hst => ?_, h.conn, h.starts, h.runs⟩
  rcases List.mem_append.mp hother with hother | hother
  · exact h.standing other hother hst
  · rw [List.mem_singleton.mp hother]
    exact ⟨hmark, hall⟩

theorem closed_setLink {i : Nat} {l' : Link} (hi : i < s.links.length) (hl' : l'.closed = true)
    (ha : ∀ j l, s.links[j]? = some l → l.closed = false → i = j) :
    ∀ l ∈ (s.setLink i l').links, l.closed = true := by
  intro l hl
  obtain ⟨j, hj⟩ := List.mem_iff_getElem?.mp hl
  have hj : (s.links.set i l')[j]? = some l := hj
  by_cases hij : i = j
  · rw [hij, List.getElem?_set_self (hij ▸ hi)] at hj
    cases hj
    exact hl'
  · rw [List.getElem?_set_ne hij] at hj
    by_contra hc
    exact hij (ha j l hj (Bool.eq_false_iff.mpr hc))

/-- **Every safe step keeps the invariant.** -/
theorem step_ok {a : ClientAction} (h : Ok s) (ha : CloseSafe s a) (hs : s.step cfg a = some s') :
    Ok s' := by
  have hlen : ∀ (i : Nat) (l : Link), (s.setLink i l).links.length = s.links.length := fun _ _ =>
    List.length_set
  cases step_cases hs with
  | start _ => exact h.called.setStart _ nofun
  | connected _ =>
    have hlt : ∀ {i : Nat}, i < s.links.length → i < (s.links ++ [Link.greeting []]).length :=
      fun hi => hi.trans (by rw [List.length_append]; exact Nat.lt_succ_self _)
    have hgrow : Ok { s with links := s.links ++ [Link.greeting []] } := by
      refine ⟨fun call hcall hst => ?_, fun i hi => hlt (h.conn i hi),
        fun o i hi => hlt (h.starts o i hi), fun n i hi => hlt (h.runs n i hi)⟩
      have hnot := ha.connected _ rfl call hcall
      rw [show call.standing = true from hst] at hnot
      cases hnot
    exact hgrow.setStart _ nofun
  | refused _ => exact h.setStart _ nofun
  | greets _ hl => exact h.setLink _ hl nofun
  | @sends _ o _ _ c' _ _ _ hgoes hc' =>
    obtain ⟨_, l, hl, hclosed⟩ := hgoes.link
    exact (h.setLink (.live c') hl fun e => Conn.step_closed hc' (hclosed e)).setStart o nofun
  | @returns _ o i c _ hgoes =>
    obtain ⟨_, l, hl, hclosed⟩ := hgoes.link
    have hlink := h.setLink (.live c) hl hclosed
    have hi : i < (s.setLink i (.live c)).links.length := hlen i _ ▸ lt_of_getElem?_eq_some hl
    have hconn : Ok { s.setLink i (.live c) with conn := some i } :=
      ⟨hlink.standing, fun j hj => (Option.some.inj hj) ▸ hi, hlink.starts, hlink.runs⟩
    refine hconn.setStart o fun j hj => ?_
    cases hj
    exact hi
  | @fails _ o _ _ _ _ c' _ hl _ hc' =>
    exact (h.setLink (.live c') hl fun _ => closed_of_step hc').setStart o nofun
  | raises _ _ _ => exact h.setStart _ nofun
  | @run n onReady _ _ _ henters hloop =>
    have hbegin : Ok (s.begin n onReady) := h.called.update n fun i hi => by cases hi
    exact hbegin.loop (fun i hi => h.enters henters hi) hloop
  | resumes _ hgoes hloop => exact h.loop (fun i hi => h.goes hgoes hi) hloop
  | cancelRun _ => exact h.setRun _ nofun
  | @stops io _ hconn hmark =>
    -- nothing is installed, and so nothing is open
    have hall : ∀ l ∈ s.links, l.closed = true := fun l hl => by
      by_contra hc
      obtain ⟨i, hi⟩ := List.mem_iff_getElem?.mp hl
      have := ha.installed io rfl i l hi (Bool.eq_false_iff.mpr hc)
      rw [hconn] at this
      cases this
    exact Ok.addClose (s := { s with stopping := true })
      ⟨h.standing, h.conn, h.starts, h.runs⟩ hmark hall
  | @closes io _ i _ c' hconn hl hmark hc' =>
    have hok := h.stepLink hl hc'
    have hall : ∀ l ∈ (s.setLink i (.live c')).links, l.closed = true :=
      closed_setLink (lt_of_getElem?_eq_some hl) (closed_of_step hc') fun j l hj hc =>
        Option.some.inj (hconn.symm.trans (ha.installed io rfl j l hj hc))
    exact Ok.addClose (s := { s.setLink i (.live c') with stopping := true })
      ⟨hok.standing, hok.conn, hok.starts, hok.runs⟩ (hmark.trans (hlen i _).symm) hall
  | closeReturns hcall hpc hmark =>
    have hst := h.standing _ (List.mem_of_getElem? hcall) (by
      unfold CloseCall.standing
      rw [hpc])
    refine ⟨fun c hc hst' => ?_, h.conn, h.starts, h.runs⟩
    rcases List.mem_or_eq_of_mem_set hc with hc | rfl
    · exact h.standing c hc hst'
    · exact ⟨hmark.trans hst.1, hst.2⟩
  | link hl _ hc' => exact h.stepLink hl hc'

/-- **`close` is final**, in every run of safe steps: from the return of a `close` on, until
somebody calls `start` or `run_forever`. -/
theorem close_is_final (h : Sys.Reach (step cfg) CloseSafe {} s) {call : CloseCall}
    (hcall : call ∈ s.closes) (hreturned : call.pc = .returned) (hquiet : call.quiet = true) :
    Stopped s call := by
  have hok : Ok s := h.inv ⟨nofun, nofun, nofun, nofun⟩ fun _ _ _ hi ha hs => step_ok hi ha hs
  obtain ⟨hmark, hclosed⟩ := hok.standing call hcall (by
    unfold CloseCall.standing
    rw [hreturned]
    exact hquiet)
  refine ⟨hclosed, ?_, fun n i hi => hmark ▸ hok.runs n i hi⟩
  unfold connected
  split
  · rename_i l hl
    obtain ⟨i, _, hl⟩ := Option.bind_eq_some_iff.mp hl
    rw [hclosed l (List.mem_of_getElem? hl)]
    rfl
  · rfl

def closeCheck (s : Client) : ClientAction → Bool
  | .close _ => (List.range s.links.length).all fun i =>
      s.links[i]?.all fun l => l.closed || s.conn == some i
  | .connected _ => s.closes.all fun call => !call.standing
  | _ => true

theorem closeSafe_of_check (a : ClientAction) (h : closeCheck s a = true) : CloseSafe s a := by
  constructor
  · rintro io rfl i l hl hc
    have hi := List.all_eq_true.mp h i (List.mem_range.mpr (lt_of_getElem?_eq_some hl))
    rw [hl, Option.all_some, hc, Bool.false_or] at hi
    exact beq_iff_eq.mp hi
  · rintro o rfl call hcall
    exact Bool.not_eq_true' _ ▸ List.all_eq_true.mp h call hcall

def closeRun : List ClientAction :=
  [.run 0 true, .connected (.loop 0), .greet (.loop 0) (ascii "TS3"),
    .greet (.loop 0) (ascii "Welcome to the TeamSpeak 3 ServerQuery interface"),
    .link 0 (.acquire (.task 2) .done), .link 0 (.recv (ascii "error id=0 msg=ok")),
    .link 0 (.resume (.task 2) {}), .advance (.loop 0) {}, .resumeRun 0 true, .resumeRun 0 true,
    .close {}, .closeReturns 0, .link 0 (.resumeWait 0), .resumeRun 0 true]

theorem close_is_final_events :
    ∃ s, Sys.run (step { serverId := some (.text (lit "1")) }) {} closeRun = some s ∧
      Stopped s { mark := 1, pc := .returned, quiet := true } := by
  obtain ⟨s, hs, h⟩ := Sys.exists_reach_of_guard
    (step { serverId := some (.text (lit "1")) }) CloseSafe closeCheck {} closeRun
    (fun _ => closeSafe_of_check) (by decide +kernel)
  have hcloses : s.closes = [{ mark := 1, pc := .returned, quiet := true }] :=
    Sys.eq_of_run_map (f := fun s : Client => s.closes) hs (by decide +kernel)
  refine ⟨s, hs, close_is_final h ?_ rfl rfl⟩
  rw [hcloses]
  exact List.mem_singleton.mpr rfl

/-- `close` returns while the loop waits for its transport, and then the loop goes on -/
def lateRun : List ClientAction :=
  [.run 0 true, .close {}, .connected (.loop 0), .greet (.loop 0) (ascii "TS3"),
    .greet (.loop 0) (ascii "Welcome to the TeamSpeak 3 ServerQuery interface"), .resumeRun 0 true]

/-- two calls of `start`, and one of `close` -/
def twiceRun : List ClientAction :=
  [.start 0, .connected (.user 0), .greet (.user 0) (ascii "TS3"), .greet (.user 0) (ascii "Hi"),
    .start 1, .connected (.user 1), .greet (.user 1) (ascii "TS3"), .greet (.user 1) (ascii "Hi"),
    .close {}, .closeReturns 0]

/-- **A `close` during `start` is not final**: the connection is installed open, and the loop runs
`on_ready` on it.  Nor is one after two calls of `start`: the first connection stays open. -/
theorem close_during_start :
    (∃ s, Sys.run (step {}) {} lateRun = some s ∧
      Sys.Reach (step {}) (fun _ _ => True) {} s ∧
      s.closes = [{ mark := 0, pc := .returned, quiet := true }] ∧ s.connected = true ∧
      (s.runs 0).pc.on = some 0 ∧
      ¬ Stopped s { mark := 0, pc := .returned, quiet := true }) ∧
    ∃ s, Sys.run (step {}) {} twiceRun = some s ∧
      Sys.Reach (step {}) (fun _ _ => True) {} s ∧
      s.closes = [{ mark := 2, pc := .returned, quiet := true }] ∧
      s.links.map Link.closed = [false, true] ∧
      ¬ Stopped s { mark := 2, pc := .returned, quiet := true } := by
  constructor
  · obtain ⟨s, hs, h⟩ := Sys.exists_reach (step {}) (fun _ _ => True) {} lateRun
      (fun _ _ => trivial) (by decide +kernel)
    have hconnected : s.connected = true :=
      Sys.eq_of_run_map (f := fun s : Client => s.connected) hs (by decide +kernel)
    refine ⟨s, hs, h, Sys.eq_of_run_map (f := fun s : Client => s.closes) hs (by decide +kernel),
      hconnected,
      Sys.eq_of_run_map (f := fun s : Client => (s.runs 0).pc.on) hs (by decide +kernel),
      fun hstop => ?_⟩
    rw [hstop.notConnected] at hconnected
    cases hconnected
  · obtain ⟨s, hs, h⟩ := Sys.exists_reach (step {}) (fun _ _ => True) {} twiceRun
      (fun _ _ => trivial) (by decide +kernel)
    have hlinks : s.links.map Link.closed = [false, true] :=
      Sys.eq_of_run_map (f := fun s : Client => s.links.map Link.closed) hs (by decide +kernel)
    refine ⟨s, hs, h, Sys.eq_of_run_map (f := fun s : Client => s.closes) hs (by decide +kernel),
      hlinks, fun hstop => ?_⟩
    have hfalse : false ∈ s.links.map Link.closed := by
      rw [hlinks]
      exact List.mem_cons_self
    obtain ⟨l, hl, hc⟩ := List.mem_map.mp hfalse
    rw [hstop.closed l hl] at hc
    cases hc

end Client
end Atsq
