import Atsq.Client.Forever

/-!
# The waits of `run_forever` in closed form

* `waitsSince started turns`  the number of waits since `start` last returned, `turns` being the
                              turns so far, the last one first;
* `Paced`                    the delay of a loop at each of its suspensions;
* `ClosedForm`                what every wait of a loop is.

Main result: `backoff_closed_form`.
-/

namespace Atsq
open Py

def Delays.backoff (args : Delays) (k : Nat) : ℚ := min args.maxDelay (args.initialDelay * 2 ^ k)

structure Delays.Sound (args : Delays) : Prop where
  initial : 0 ≤ args.initialDelay
  max : args.initialDelay ≤ args.maxDelay

/-- the number of waits since `start` last returned, or since the run began; `started` tells
whether it returned after all of them -/
def waitsSince : Bool → List Turn → Nat
  | true, _ => 0
  | false, [] => 0
  | false, t :: older => waitsSince t.started older + 1

theorem waitsSince_true (turns : List Turn) : waitsSince true turns = 0 := by
  cases turns <;> rfl

def Turn.Banned (t : Turn) : Prop := ∃ text, t.error = some text ∧ InAnyCase (lit "banned") text

/-- all waits of a loop -/
structure ClosedForm (other : Lowering) (args : Delays) (turns : List Turn) : Prop where
  banned : ∀ t older, t :: older <:+ turns → t.Banned → t.wait = args.bannedDelay
  backoff : ∀ t older, t :: older <:+ turns → ¬ t.Banned →
    t.wait = args.backoff (waitsSince t.started older)
  bounds : ∀ t older, t :: older <:+ turns → ¬ t.Banned →
    args.initialDelay ≤ t.wait ∧ t.wait ≤ args.maxDelay
  /-- the first wait after `start` returned -/
  first : ∀ t older, t :: older <:+ turns → ¬ t.Banned → t.started = true →
    t.wait = args.initialDelay
  /-- the answer of a server that banned the client -/
  answers : ∀ err : QueryError, InAnyCase (lit "banned") err.msg → isBanned other err.text = true

section
variable {args : Delays}

theorem Delays.Sound.max_nonneg (h : args.Sound) : 0 ≤ args.maxDelay := h.initial.trans h.max

theorem Delays.Sound.backoff_zero (h : args.Sound) : args.backoff 0 = args.initialDelay := by
  unfold Delays.backoff
  rw [pow_zero, mul_one]
  exact min_eq_right h.max

theorem Delays.Sound.backoff_succ (h : args.Sound) (k : Nat) :
    min args.maxDelay (args.backoff k * 2) = args.backoff (k + 1) := by
  unfold Delays.backoff
  rw [pow_succ, ← mul_assoc, min_mul_of_nonneg _ _ (by norm_num), ← min_assoc]
  have hle : args.maxDelay ≤ args.maxDelay * 2 := by linarith [h.max_nonneg]
  rw [min_eq_left hle]

theorem Delays.Sound.initial_le (h : args.Sound) (k : Nat) :
    args.initialDelay ≤ args.backoff k := by
  refine le_min h.max ?_
  have hpow : (1 : ℚ) ≤ 2 ^ k := one_le_pow₀ (by norm_num)
  nlinarith [h.initial]

theorem Delays.backoff_le (args : Delays) (k : Nat) : args.backoff k ≤ args.maxDelay :=
  min_le_left ..

end

/-! ## the delay of a loop -/

/-- the wait that a turn ends with -/
def Turn.Exact (other : Lowering) (args : Delays) (t : Turn) (older : List Turn) : Prop :=
  t.wait = if t.error.any (isBanned other) then args.bannedDelay
    else args.backoff (waitsSince t.started older)

def Loop.Awake (l : Loop) : Prop := l.delay = l.args.backoff (waitsSince l.started l.turns)

/-- the delay while the loop sleeps is not doubled yet -/
def Loop.Asleep (l : Loop) : Prop :=
  ∃ t older, l.turns = t :: older ∧ l.delay = l.args.backoff (waitsSince t.started older)

structure Paced (other : Lowering) (l : Loop) (pc : RunPc) : Prop where
  turns : ∀ t older, t :: older <:+ l.turns → t.Exact other l.args older
  awake : pc.free = false → pc ≠ .sleeping → l.Awake
  asleep : pc = .sleeping → l.Asleep

section
variable {other : Lowering} {s : Client} {n : Nat} {ok : Bool} {l : Loop}

theorem resumed_args : (l.resumed s n ok).args = l.args := by
  unfold Loop.resumed
  split
  · split <;> rfl
  · split <;> rfl
  · rfl
  · rfl

theorem resumed_turns : (l.resumed s n ok).turns = l.turns := by
  unfold Loop.resumed
  split
  · split <;> rfl
  · split <;> rfl
  · rfl
  · rfl

theorem resumed_awake (hsound : l.args.Sound) (h : Paced other l (s.runs n).pc)
    (hfree : (s.runs n).pc.free = false) : (l.resumed s n ok).Awake := by
  have awake := h.awake hfree
  have asleep := h.asleep
  unfold Loop.resumed
  split
  · rename_i hpc
    split
    · -- `start` has returned
      show l.args.initialDelay = l.args.backoff (waitsSince true l.turns)
      rw [waitsSince_true, hsound.backoff_zero]
    · exact awake (by rw [hpc]; exact nofun)
  · rename_i hpc
    split
    · exact awake (by rw [hpc]; exact nofun)
    · exact awake (by rw [hpc]; exact nofun)
  · rename_i hpc
    obtain ⟨t, older, hturns, hdelay⟩ := asleep hpc
    show min l.args.maxDelay (l.delay * 2) = l.args.backoff (waitsSince false l.turns)
    rw [hturns, hdelay]
    exact hsound.backoff_succ _
  · rename_i hne
    exact awake hne

/-- a turn ends -/
theorem waits_paced {error : Option Str} (hawake : l.Awake)
    (hturns : ∀ t older, t :: older <:+ l.turns → t.Exact other l.args older) :
    Paced other (l.waits other error) .sleeping := by
  refine ⟨fun t older hsuffix => ?_, fun _ hpc => absurd rfl hpc, fun _ => ⟨_, _, rfl, hawake⟩⟩
  rcases List.suffix_cons_iff.mp hsuffix with he | hsuffix
  · cases he
    show (if error.any (isBanned other) then l.args.bannedDelay else l.delay)
      = if error.any (isBanned other) then l.args.bannedDelay
        else l.args.backoff (waitsSince l.started l.turns)
    rw [show l.delay = _ from hawake]
  · exact hturns t older hsuffix

end

namespace Forever
open Client

section
variable {other : Lowering} {cfg : ClientConfig} {s s' : Forever} {a : ForeverAction}

theorem step_paced (h : Owned s.client) (hs : s.step other cfg a = some s') {n : Nat}
    (hin : (s.loops n).args.Sound → Paced other (s.loops n) (s.client.runs n).pc)
    (hsound : (s'.loops n).args.Sound) : Paced other (s'.loops n) (s'.client.runs n).pc := by
  cases step_loop h hs n with
  | still hl hr =>
    rw [hl] at hsound ⊢
    rw [hr]
    exact hin hsound
  | stops hl hpc =>
    rw [hl] at hsound ⊢
    rw [hpc]
    exact ⟨(hin hsound).turns, nofun, nofun⟩
  | begins _ hl henters _ =>
    rw [hl] at hsound ⊢
    refine ⟨fun t older hsuffix => ?_, fun _ _ => hsound.backoff_zero.symm, fun hpc => ?_⟩
    · exact absurd (List.suffix_nil.mp hsuffix) (List.cons_ne_nil t older)
    · rw [hpc] at henters
      cases henters
  | sleeps hl hgoes hpc =>
    rw [hl] at hsound ⊢
    rw [hpc]
    have hsound : ((s.loops n).resumed s.client n _).args.Sound := hsound
    rw [resumed_args] at hsound
    have hn := hin hsound
    refine waits_paced (resumed_awake hsound hn ?_) ?_
    · exact hgoes.busy.resolve_right nofun
    · rw [resumed_turns, resumed_args]
      exact hn.turns
  | goes _ hl hgoes hpc _ =>
    rw [hl] at hsound ⊢
    rw [resumed_args] at hsound
    have hn := hin hsound
    refine ⟨?_, fun hfree _ => resumed_awake hsound hn ?_, fun he => absurd he hpc⟩
    · rw [resumed_turns, resumed_args]
      exact hn.turns
    · refine hgoes.busy.resolve_right fun he => ?_
      rw [he] at hfree
      cases hfree

theorem inAnyCase_text {word : Str} {err : QueryError} (h : InAnyCase word err.msg) :
    InAnyCase word err.text := by
  obtain ⟨w, hw, hmap⟩ := h
  refine ⟨w, hw.trans ?_, hmap⟩
  exact ⟨lit "error " ++ intText err.errorId ++ lit ": ", _, rfl⟩

theorem isBanned_iff (hother : Apart other (lit "banned")) (text : Str) :
    isBanned other text = true ↔ InAnyCase (lit "banned") text := by
  unfold isBanned
  rw [decide_eq_true_iff]
  exact infix_lower hother (by decide) (by decide) text

theorem any_isBanned_iff (hother : Apart other (lit "banned")) (t : Turn) :
    t.error.any (isBanned other) = true ↔ t.Banned := by
  unfold Turn.Banned
  cases t.error with
  | none => exact ⟨nofun, nofun⟩
  | some text =>
    rw [Option.any_some, isBanned_iff hother]
    exact ⟨fun h => ⟨text, rfl, h⟩, fun ⟨_, he, h⟩ => Option.some.inj he ▸ h⟩

theorem closedForm_of_exact {args : Delays} {turns : List Turn}
    (hother : Apart other (lit "banned")) (hsound : args.Sound)
    (h : ∀ t older, t :: older <:+ turns → t.Exact other args older) :
    ClosedForm other args turns := by
  have backoff : ∀ t older, t :: older <:+ turns → ¬ t.Banned →
      t.wait = args.backoff (waitsSince t.started older) := by
    intro t older hsuffix hbanned
    rw [h t older hsuffix, if_neg fun hb => hbanned ((any_isBanned_iff hother t).mp hb)]
  refine ⟨fun t older hsuffix hbanned => ?_, backoff, fun t older hsuffix hbanned => ?_,
    fun t older hsuffix hbanned hstarted => ?_, fun err hmsg => ?_⟩
  · rw [h t older hsuffix, if_pos ((any_isBanned_iff hother t).mpr hbanned)]
  · rw [backoff t older hsuffix hbanned]
    exact ⟨hsound.initial_le _, args.backoff_le _⟩
  · rw [backoff t older hsuffix hbanned, hstarted, waitsSince_true, hsound.backoff_zero]
  · exact (isBanned_iff hother _).mpr (inAnyCase_text hmsg)

/-- **The waits of `run_forever` have a closed form**, in every run and for every loop. -/
theorem backoff_closed_form (hother : Apart other (lit "banned"))
    (h : Sys.Reach (step other cfg) (fun _ _ => True) {} s) (n : Nat)
    (hsound : (s.loops n).args.Sound) :
    ClosedForm other (s.loops n).args (s.loops n).turns := by
  have hinv := h.inv
    (I := fun s => Owned s.client ∧ ∀ n, (s.loops n).args.Sound →
      Paced other (s.loops n) (s.client.runs n).pc)
    ⟨owned_init, fun n _ => ⟨fun t older hsuffix => ?_, nofun, nofun⟩⟩
    fun s a s' hi _ hs => ?_
  · exact closedForm_of_exact hother hsound (hinv.2 n hsound).turns
  · exact absurd (List.suffix_nil.mp hsuffix) (List.cons_ne_nil t older)
  · obtain ⟨b, hb⟩ := step_client hs
    exact ⟨(step_moves hi.1 hb).owned, fun m hm => step_paced hi.1 hs (hi.2 m) hm⟩

end

/-- `str.lower` on texts of ASCII characters -/
def asciiLowering : Lowering := fun _ c _ => [c]

theorem apart_asciiLowering : Apart asciiLowering (lit "banned") where
  ne_nil _ c _ _ := List.cons_ne_nil c []
  not_mem _ c _ hc q hq hmem := by
    have hsmall : ∀ q ∈ lit "banned", q < 128 := by decide
    rw [List.mem_singleton.mp hq] at hmem
    exact absurd (hsmall c hmem) (Nat.not_lt.mpr hc)

def refusedRun : List ForeverAction :=
  [.run 0 true {},
    .client (.refused (.loop 0) .factory), .resume 0 true (lit "connection refused"),
    .resume 0 true [],
    .client (.refused (.loop 0) .factory), .resume 0 true (lit "error 3329: you are Banned"),
    .resume 0 true [],
    .client (.refused (.loop 0) .factory), .resume 0 true (lit "connection refused")]

theorem backoff_closed_form_refused :
    ∃ s, Sys.run (step asciiLowering {}) {} refusedRun = some s ∧
      (s.loops 0).turns.map Turn.wait = [20, 300, 5] ∧
      ClosedForm asciiLowering (s.loops 0).args (s.loops 0).turns := by
  obtain ⟨s, hs, h⟩ := Sys.exists_reach (step asciiLowering {}) (fun _ _ => True) {} refusedRun
    (fun _ _ => trivial) (by decide +kernel)
  have hargs : (s.loops 0).args = {} :=
    Sys.eq_of_run_map (f := fun s : Forever => (s.loops 0).args) hs (by decide +kernel)
  refine ⟨s, hs,
    Sys.eq_of_run_map (f := fun s : Forever => (s.loops 0).turns.map Turn.wait) hs
      (by decide +kernel),
    backoff_closed_form apart_asciiLowering h 0 ?_⟩
  rw [hargs]
  exact ⟨by decide +kernel, by decide +kernel⟩

end Forever
end Atsq
