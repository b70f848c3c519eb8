import Atsq.Client.Forever

/-!
# Does `on_ready` come before the events?

* `DispatchReady`  an event goes to the handlers only from a connection that is set up, and for
                   which `on_ready` returned;
* `ReadySafe`      no loop with `on_ready` enters a turn while there is an open connection, and
                   the connection that is installed when `on_ready` returns is the one it was
                   called for.

Main results: `dispatch_after_ready`, and `dispatch_before_ready`, runs that break it.
-/

namespace Atsq
open Py

namespace Forever
open Client

structure DispatchReady (cfg : ClientConfig) (s : Forever) (n : Nat) : Prop where
  calls : ∀ i, (s.client.runs n).pc = .onReady i → SetUp cfg s.client i
  dispatch : ∀ i, (s.client.runs n).pc = .dispatching i →
    i ∈ (s.loops n).ready ∧ SetUp cfg s.client i

structure ReadySafe (s : Forever) (a : ForeverAction) : Prop where
  /-- a loop that is called makes its own connection -/
  run : ∀ n args, a = .run n true args → s.client.stopping = false → s.client.connected = false
  /-- and so does one that wakes up -/
  wakes : ∀ n ok text, a = .resume n ok text → (s.client.runs n).pc = .sleeping →
    (s.client.runs n).onReady = true → s.client.stopping = false → s.client.connected = false
  returns : ∀ n text i, a = .resume n true text → (s.client.runs n).pc = .onReady i →
    s.client.conn = some i

/-- a loop with `on_ready`: while it has events of a connection, `on_ready` has returned for it -/
structure LoopReady (cfg : ClientConfig) (s : Forever) (n : Nat) : Prop where
  calls : ∀ i, (s.client.runs n).pc = .onReady i → SetUp cfg s.client i
  events : ∀ i, (s.client.runs n).pc = .events i ∨ (s.client.runs n).pc = .dispatching i →
    i ∈ (s.loops n).ready ∧ SetUp cfg s.client i

section
variable {other : Lowering} {cfg : ClientConfig} {s s' : Forever} {a : ForeverAction} {n : Nat}

theorem loopReady_of_off (h : (s.client.runs n).pc.on = none) : LoopReady cfg s n := by
  refine ⟨fun i hi => ?_, fun i hi => ?_⟩
  · rw [hi] at h
    cases h
  · rcases hi with hi | hi <;> rw [hi] at h <;> cases h

theorem loopReady_of_calls {i : Nat} (hpc : (s.client.runs n).pc = .onReady i)
    (hup : SetUp cfg s.client i) : LoopReady cfg s n := by
  refine ⟨fun j hj => ?_, fun j hj => ?_⟩
  · cases hpc.symm.trans hj
    exact hup
  · rcases hj with hj | hj <;> cases hpc.symm.trans hj

theorem loopReady_of_events {i : Nat}
    (hpc : (s.client.runs n).pc = .events i ∨ (s.client.runs n).pc = .dispatching i)
    (hmem : i ∈ (s.loops n).ready) (hup : SetUp cfg s.client i) : LoopReady cfg s n := by
  refine ⟨fun j hj => ?_, fun j hj => ?_⟩
  · rcases hpc with hpc | hpc <;> cases hpc.symm.trans hj
  · have hj : j = i := by
      rcases hpc with hpc | hpc <;> rcases hj with hj | hj <;> cases hpc.symm.trans hj <;> rfl
    subst hj
    exact ⟨hmem, hup⟩

theorem resumed_ready {l : Loop} {c : Client} {ok : Bool} {i : Nat} (h : i ∈ l.ready) :
    i ∈ (l.resumed c n ok).ready := by
  unfold Loop.resumed
  split
  · split <;> exact h
  · split
    · exact List.mem_cons_of_mem _ h
    · exact h
  · exact h
  · exact h

theorem step_loopReady (ht : Tidy cfg s.client) (h : Owned s.client) (ha : ReadySafe s a)
    (hs : s.step other cfg a = some s')
    (hready : (s.client.runs n).onReady = true → LoopReady cfg s n)
    (hn : (s'.client.runs n).onReady = true) : LoopReady cfg s' n := by
  obtain ⟨b, hb⟩ := step_client hs
  have hup : ∀ i, SetUp cfg s.client i → SetUp cfg s'.client i := fun i hi =>
    hi.imp ((step_keeps ht hb).setUp i)
  cases step_loop h hs n with
  | still hl hr =>
    rw [hr] at hn
    have hold := hready hn
    refine ⟨fun i hi => hup i (hold.calls i (hr ▸ hi)), fun i hi => ?_⟩
    obtain ⟨hmem, hi⟩ := hold.events i (hr ▸ hi)
    exact ⟨hl ▸ hmem, hup i hi⟩
  | stops _ hpc => exact loopReady_of_off (by rw [hpc]; rfl)
  | begins he _ henters hr =>
    rw [hn] at hr
    subst hr
    refine loopReady_of_off ?_
    generalize (s'.client.runs n).pc = pc at henters
    cases henters with
    | listens hstopping hconnected _ =>
      rw [ha.run n _ he hstopping] at hconnected
      cases hconnected
    | calls _ => rfl
    | ends => rfl
  | sleeps _ _ hpc => exact loopReady_of_off (by rw [hpc]; rfl)
  | @goes ok text he hl hgoes _ hr =>
    rw [hr] at hn
    have hold := hready hn
    have hmem : ∀ i, i ∈ (s.loops n).ready → i ∈ (s'.loops n).ready := fun i hi => by
      rw [hl]
      exact resumed_ready hi
    -- from here on only where the loop was and where it is now matter
    generalize hpc : (s.client.runs n).pc = pc at hgoes
    generalize hpc' : (s'.client.runs n).pc = pc' at hgoes
    cases hgoes with
    | onReady hstart _ => exact loopReady_of_calls hpc' (hup _ ⟨_, ht.returned _ _ hstart⟩)
    | listens _ hnone _ =>
      rw [hn] at hnone
      cases hnone
    | @ready i j hok hconn =>
      rw [hok] at he
      have hinstalled := ha.returns n text i he hpc
      rw [hconn] at hinstalled
      cases hinstalled
      refine loopReady_of_events (Or.inl hpc') ?_ (hup _ (hold.calls _ hpc))
      rw [hl, hok]
      unfold Loop.resumed
      rw [hpc]
      exact List.mem_cons_self
    | event =>
      obtain ⟨h1, h2⟩ := hold.events _ (Or.inl hpc)
      exact loopReady_of_events (Or.inr hpc') (hmem _ h1) (hup _ h2)
    | handled =>
      obtain ⟨h1, h2⟩ := hold.events _ (Or.inr hpc)
      exact loopReady_of_events (Or.inl hpc') (hmem _ h1) (hup _ h2)
    | enters henters =>
      refine loopReady_of_off ?_
      rw [hpc']
      cases henters with
      | listens hstopping hconnected _ =>
        rw [ha.wakes n ok text he hpc hn hstopping] at hconnected
        cases hconnected
      | calls _ => rfl
      | ends => rfl
    | loses _ _ => exact loopReady_of_off (by rw [hpc']; rfl)
    | ends => exact loopReady_of_off (by rw [hpc']; rfl)

/-- **`on_ready` comes before the events**, in every run of safe steps and for every loop with
`on_ready`. -/
theorem dispatch_after_ready (h : Sys.Reach (step other cfg) ReadySafe {} s) (n : Nat)
    (hn : (s.client.runs n).onReady = true) : DispatchReady cfg s n := by
  have hinv := h.inv
    (I := fun s => Tidy cfg s.client ∧ Owned s.client ∧
      ∀ n, (s.client.runs n).onReady = true → LoopReady cfg s n)
    ⟨tidy_init, owned_init, fun _ _ => loopReady_of_off rfl⟩ fun s a s' hi ha hs => ?_
  · have hready := hinv.2.2 n hn
    exact ⟨hready.calls, fun i hi => hready.events i (Or.inr hi)⟩
  · obtain ⟨ht, howned, hready⟩ := hi
    obtain ⟨b, hb⟩ := step_client hs
    exact ⟨(step_keeps ht hb).tidy, (step_moves howned hb).owned,
      fun m hm => step_loopReady ht howned ha hs (hready m) hm⟩

end

def readyCheck (s : Forever) : ForeverAction → Bool
  | .run _ true _ => s.client.stopping || !s.client.connected
  | .resume n ok _ =>
    match (s.client.runs n).pc with
    | .sleeping => !(s.client.runs n).onReady || s.client.stopping || !s.client.connected
    | .onReady i => !ok || s.client.conn == some i
    | _ => true
  | _ => true

theorem readySafe_of_check {s : Forever} (a : ForeverAction) (h : readyCheck s a = true) :
    ReadySafe s a := by
  constructor
  · rintro n args rfl hstopping
    have h : (s.client.stopping || !s.client.connected) = true := h
    rw [hstopping, Bool.false_or] at h
    exact Bool.not_eq_true' _ ▸ h
  · rintro n ok text rfl hpc hready hstopping
    simp only [readyCheck, hpc, hready, hstopping, Bool.not_true, Bool.false_or] at h
    exact Bool.not_eq_true' _ ▸ h
  · rintro n text i rfl hpc
    simp only [readyCheck, hpc, Bool.not_true, Bool.false_or] at h
    exact beq_iff_eq.mp h

def connects (o : Owner) : List ForeverAction :=
  [.client (.connected o), .client (.greet o (ascii "TS3")), .client (.greet o (ascii "Hi"))]

def eventOn (i : Nat) : List ForeverAction :=
  [.client (.link i (.recv (ascii "notifyx n=1"))), .client (.link i (.resumeWait 0)),
    .resume 0 true []]

def readyRun : List ForeverAction :=
  .run 0 true {} :: connects (.loop 0) ++ [.resume 0 true [], .resume 0 true []] ++ eventOn 0

theorem dispatch_after_ready_event :
    ∃ s, Sys.run (step (fun _ c _ => [c]) {}) {} readyRun = some s ∧
      (s.client.runs 0).pc = .dispatching 0 ∧ DispatchReady {} s 0 := by
  obtain ⟨s, hs, h⟩ := Sys.exists_reach_of_guard (step (fun _ c _ => [c]) {}) ReadySafe readyCheck
    {} readyRun (fun _ => readySafe_of_check) (by decide +kernel)
  have hpc : (s.client.runs 0).pc = .dispatching 0 :=
    Sys.eq_of_run_map (f := fun s : Forever => (s.client.runs 0).pc) hs (by decide +kernel)
  have hn : (s.client.runs 0).onReady = true :=
    Sys.eq_of_run_map (f := fun s : Forever => (s.client.runs 0).onReady) hs (by decide +kernel)
  exact ⟨s, hs, hpc, dispatch_after_ready h 0 hn⟩

def raisedRun : List ForeverAction :=
  .run 0 true {} :: connects (.loop 0) ++
    [.resume 0 true [], .resume 0 false (lit "no such channel"), .resume 0 true []] ++ eventOn 0

def startedRun : List ForeverAction :=
  .client (.start 0) :: connects (.user 0) ++ [.run 0 true {}] ++ eventOn 0

def replacedRun : List ForeverAction :=
  .run 0 true {} :: connects (.loop 0) ++ [.resume 0 true [], .client (.start 0)] ++
    connects (.user 0) ++ [.resume 0 true []] ++ eventOn 1

/-- a run in which the loop `0` has `on_ready` and passes on an event of the connection `i`, for
which `on_ready` did not return -/
def Early (actions : List ForeverAction) (i : Nat) : Prop :=
  ∃ s, Sys.run (step (fun _ c _ => [c]) {}) {} actions = some s ∧
    Sys.Reach (step (fun _ c _ => [c]) {}) (fun _ _ => True) {} s ∧
    (s.client.runs 0).onReady = true ∧ (s.client.runs 0).pc = .dispatching i ∧
    i ∉ (s.loops 0).ready ∧ ¬ DispatchReady {} s 0

theorem early_of_run {actions : List ForeverAction} {i : Nat} (ready : List Nat)
    (hrun : (Sys.run (step (fun _ c _ => [c]) {}) {} actions).map
      (fun s => ((s.client.runs 0).onReady, (s.client.runs 0).pc, (s.loops 0).ready))
        = some (true, .dispatching i, ready)) (hi : i ∉ ready) : Early actions i := by
  obtain ⟨s, hs, h⟩ := Option.map_eq_some_iff.mp hrun
  obtain ⟨s', hs', hreach⟩ := Sys.exists_reach (step (fun _ c _ => [c]) {}) (fun _ _ => True) {}
    actions (fun _ _ => trivial) (by rw [hs]; rfl)
  rw [hs] at hs'
  cases hs'
  rw [Prod.mk.injEq, Prod.mk.injEq] at h
  obtain ⟨hn, hpc, hready⟩ := h
  rw [← hready] at hi
  exact ⟨s, hs, hreach, hn, hpc, hi, fun hsafe => hi (hsafe.dispatch i hpc).1⟩

/-- **Handlers can run before `on_ready`**: when it raised, when the client was connected before,
and when the connection was replaced meanwhile. -/
theorem dispatch_before_ready : Early raisedRun 0 ∧ Early startedRun 0 ∧ Early replacedRun 1 := by
  refine ⟨early_of_run [] ?_ ?_, early_of_run [] ?_ ?_,
    early_of_run [0] ?_ ?_⟩
  all_goals decide +kernel

end Forever
end Atsq
