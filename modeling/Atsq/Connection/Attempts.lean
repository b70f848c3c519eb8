import Atsq.Connection.Call

/-!
# The attempts of a call of `exec`

* `Ans`                an answer: its data lines and its terminator; `Flooded` ones have the id 524;
* `resultOf`           what a call makes of an answer that it does not retry;
* `Stage`, `Attempts`  where a call is after so many attempts and answers;
* `Decides`            the answer that decides a call, in a list of answers to its attempts.

Main results: `step_attempts` and `attempts_of_run`, whatever the other callers do meanwhile, and
`Attempts.decided`, the number of lines sent and the result of the call.
-/

namespace Atsq
open Py

/-- what the call that starts renders: once, before its first attempt -/
def Action.text : Action → Except RenderError Bytes
  | .exec _ cmd options blocks params => renderCommand cmd options blocks params
  | _ => renderCommand (lit "whoami") [] none []

abbrev Ans := List Bytes × ErrorLine

def Flooded (a : Ans) : Prop := a.2.id = floodErrorId

/-- what a call makes of an answer that it does not retry -/
def resultOf (a : Ans) : Outcome :=
  if a.2.ok then .rows (parseDataBlock a.1) else .queryError (.create a.2.id a.2.msg a.2.extra)

def hintOf (a : Ans) : ℚ := (QueryError.create a.2.id a.2.msg a.2.extra).retryAfter

theorem not_ok_of_flooded {a : Ans} (h : Flooded a) : a.2.ok = false := by
  unfold ErrorLine.ok
  rw [h]
  rfl

theorem create_flood (a : Ans) :
    (QueryError.create a.2.id a.2.msg a.2.extra).flood = true ↔ Flooded a := by
  show (a.2.id == floodErrorId) = true ↔ _
  rw [beq_iff_eq]
  rfl

namespace Conn
open Session

theorem answerPc_cases (cfg : Config) (now : ℚ) (attempt : Nat) (a : Ans) :
    (Flooded a ∧ (attempt : Int) ≠ cfg.floodRetries ∧
      answerPc cfg now attempt a.1 a.2 = .sleeping (now + (hintOf a + 1 / 10))) ∨
    ((Flooded a → (attempt : Int) = cfg.floodRetries) ∧
      answerPc cfg now attempt a.1 a.2 = .finished (resultOf a)) := by
  unfold answerPc resultOf hintOf
  cases hok : a.2.ok with
  | true =>
    right
    refine ⟨fun h => ?_, rfl⟩
    rw [not_ok_of_flooded h] at hok
    cases hok
  | false =>
    simp only [Bool.false_eq_true, if_false]
    by_cases hf : Flooded a
    · by_cases hn : (attempt : Int) = cfg.floodRetries
      · right
        refine ⟨fun _ => hn, ?_⟩
        rw [if_neg]
        simp [hn]
      · left
        refine ⟨hf, hn, ?_⟩
        rw [if_pos]
        simpa [hn] using (create_flood a).mpr hf
    · right
      refine ⟨fun h => absurd h hf, ?_⟩
      rw [if_neg]
      rw [Bool.and_eq_true, create_flood]
      exact fun h => hf h.1

theorem resultOf_not_early (a : Ans) : (resultOf a).early = false := by
  unfold resultOf
  split <;> rfl

theorem answerPc_early {cfg : Config} {now : ℚ} {attempt : Nat} {a : Ans} {o : Outcome}
    (h : answerPc cfg now attempt a.1 a.2 = .finished o) : o.early = false := by
  rcases answerPc_cases cfg now attempt a with ⟨_, _, he⟩ | ⟨_, he⟩
  · rw [he] at h
    cases h
  · rw [he] at h
    cases h
    exact resultOf_not_early a

/-! ## where a call is -/

/-- where a call is: `answered` attempts have the answers `as`, `rest` more are made -/
inductive Stage (n : Int) (attempt : Nat) (as : List Ans) (rest : Nat) : ExecPc → Prop where
  | locking : as.length = attempt → (∀ a ∈ as, Flooded a) → rest = 0 → (attempt : Int) ≤ n →
      Stage n attempt as rest .locking
  | inside {pc : ExecPc} : pc.critical = true → as.length = attempt → (∀ a ∈ as, Flooded a) →
      rest = 1 → (attempt : Int) ≤ n → Stage n attempt as rest pc
  | sleeping (wake : ℚ) : as.length = attempt + 1 → (∀ a ∈ as, Flooded a) → rest = 0 →
      (attempt : Int) < n → Stage n attempt as rest (.sleeping wake)
  | result (init : List Ans) (a : Ans) : as = init ++ [a] → init.length = attempt →
      (∀ a ∈ init, Flooded a) → rest = 0 → (attempt : Int) ≤ n →
      (Flooded a → (attempt : Int) = n) → Stage n attempt as rest (.finished (resultOf a))
  | early {o : Outcome} : o.early = true → (∀ a ∈ as, Flooded a) → rest ≤ 1 →
      as.length + rest ≤ attempt + 1 → (attempt : Int) ≤ n → Stage n attempt as rest (.finished o)

/-- a call with the line `line`: the lines `ys` it sent are answered by `as`, the lines `zs` are
not; `base` is what its caller had sent before -/
structure Attempts (cfg : Config) (s : Conn) (c : Caller) (line : Bytes) (base ys zs : List Sent)
    (as : List Ans) : Prop where
  own : (s.execs c).line = line
  sent : s.session.sentBy c = base ++ (ys ++ zs)
  lines : ∀ x ∈ ys ++ zs, x.line = line
  answered : List.Forall₂ (fun x a => Answered s.received x.mark a.1 a.2) ys as
  stage : Stage cfg.floodRetries (s.execs c).attempt as zs.length (s.execs c).pc
  early : ∀ o, (s.execs c).pc = .finished o → o.early = true → Excused s c o

section
variable {cfg : Config} {s s' : Conn} {c : Caller} {line : Bytes} {base ys zs : List Sent}
  {as : List Ans}

theorem mark_of_mem_sentBy (hb : Base s) {x : Sent} (hx : x ∈ s.session.sentBy c) :
    x.mark ≤ s.received.length := hb.session.marks x (List.mem_filter.mp hx).1

theorem Attempts.mem_sentBy (h : Attempts cfg s c line base ys zs as) {x : Sent} (hx : x ∈ ys) :
    x ∈ s.session.sentBy c := by
  rw [h.sent]
  exact List.mem_append_right _ (List.mem_append_left _ hx)

theorem Attempts.mono (hb : Base s) (h : Attempts cfg s c line base ys zs as)
    (hreceived : s.received <+: s'.received) :
    List.Forall₂ (fun x a => Answered s'.received x.mark a.1 a.2) ys as := by
  obtain ⟨more, hmore⟩ := hreceived
  rw [← hmore]
  have hmarks : ∀ x ∈ ys, x.mark ≤ s.received.length := fun x hx =>
    mark_of_mem_sentBy hb (h.mem_sentBy hx)
  refine List.Forall₂.imp (fun x a ha => ?_)
    ((List.forall₂_and_left ys as).mpr ⟨hmarks, h.answered⟩)
  exact Answered.append ha.2 ha.1 more

theorem Attempts.steady (hb : Base s) (h : Attempts cfg s c line base ys zs as)
    (hs : Steady s.session s'.session c)
    (hstage : Stage cfg.floodRetries (s.execs c).attempt as zs.length (s'.execs c).pc)
    (hearly : ∀ o, (s'.execs c).pc = .finished o → o.early = true → Excused s' c o) :
    Attempts cfg s' c line base ys zs as := by
  refine ⟨hs.line.trans h.own, hs.sent.trans h.sent, h.lines, h.mono hb hs.received, ?_, hearly⟩
  have hattempt : (s'.execs c).attempt = (s.execs c).attempt := hs.attempt
  rw [hattempt]
  exact hstage

theorem lastSent_of_critical (hb : Base s) (hc : (s.execs c).pc.critical = true) {data : List Bytes}
    {error : ErrorLine} (hf : (s.execs c).future = .result data error) :
    ∃ x, (s.session.sentBy c).getLast? = some x ∧ Answered s.received x.mark data error := by
  have hok := hb.session.callers c
  obtain ⟨x, hlast, hcaller, hfut⟩ := hok.own (hok.holder.mp hc)
  refine ⟨x, ?_, ?_⟩
  · have h := lastSent_of_getLast? hlast
    rw [hcaller] at h
    exact h
  · have hexec : (s.session.execs c).future = .result data error := hf
    unfold FutureOk at hfut
    rw [hexec] at hfut
    exact hfut

/-! ## the stages -/

theorem Stage.of_locking {n : Int} {attempt rest : Nat} {as : List Ans} {pc : ExecPc}
    (h : Stage n attempt as rest pc) (hpc : pc = .locking) :
    as.length = attempt ∧ (∀ a ∈ as, Flooded a) ∧ rest = 0 ∧ (attempt : Int) ≤ n := by
  cases h with
  | locking h1 h2 h3 h4 => exact ⟨h1, h2, h3, h4⟩
  | inside h => rw [hpc] at h; cases h
  | sleeping => cases hpc
  | result => cases hpc
  | early => cases hpc

theorem Stage.of_critical {n : Int} {attempt rest : Nat} {as : List Ans} {pc : ExecPc}
    (h : Stage n attempt as rest pc) (hpc : pc.critical = true) :
    as.length = attempt ∧ (∀ a ∈ as, Flooded a) ∧ rest = 1 ∧ (attempt : Int) ≤ n := by
  cases h with
  | inside _ h1 h2 h3 h4 => exact ⟨h1, h2, h3, h4⟩
  | _ => cases hpc

theorem Stage.of_sleeping {n : Int} {attempt rest : Nat} {as : List Ans} {pc : ExecPc} {wake : ℚ}
    (h : Stage n attempt as rest pc) (hpc : pc = .sleeping wake) :
    as.length = attempt + 1 ∧ (∀ a ∈ as, Flooded a) ∧ rest = 0 ∧ (attempt : Int) < n := by
  cases h with
  | sleeping _ h1 h2 h3 h4 => exact ⟨h1, h2, h3, h4⟩
  | inside h => rw [hpc] at h; cases h
  | locking => cases hpc
  | result => cases hpc
  | early => cases hpc

theorem Stage.of_not_free {n : Int} {attempt rest : Nat} {as : List Ans} {pc : ExecPc}
    (h : Stage n attempt as rest pc) (hpc : pc.free = false) :
    (∀ a ∈ as, Flooded a) ∧ rest ≤ 1 ∧ as.length + rest ≤ attempt + 1 ∧ (attempt : Int) ≤ n := by
  cases h with
  | locking h1 h2 h3 h4 => exact ⟨h2, by omega, by omega, h4⟩
  | inside _ h1 h2 h3 h4 => exact ⟨h2, by omega, by omega, h4⟩
  | sleeping _ h1 h2 h3 h4 => exact ⟨h2, by omega, by omega, by omega⟩
  | _ => cases hpc

theorem Attempts.last (hb : Base s) (h : Attempts cfg s c line base ys zs as)
    (hc : (s.execs c).pc.critical = true) {data : List Bytes} {error : ErrorLine}
    (hf : (s.execs c).future = .result data error) :
    ∃ x, zs = [x] ∧ Answered s.received x.mark data error := by
  obtain ⟨_, _, h3, _⟩ := h.stage.of_critical hc
  obtain ⟨z, hz⟩ := List.length_eq_one_iff.mp h3
  obtain ⟨x, hx, hans⟩ := lastSent_of_critical hb hc hf
  rw [h.sent, hz, ← List.append_assoc, List.getLast?_concat] at hx
  rw [← Option.some.inj hx] at hans
  exact ⟨z, hz, hans⟩

/-- a call that got its result: all its lines are answered, by floods but for the last one -/
theorem Attempts.finished (h : Attempts cfg s c line base ys zs as) {o : Outcome}
    (hpc : (s.execs c).pc = .finished o) (ho : o.early = false) :
    ∃ floods a, zs = [] ∧ as = floods ++ [a] ∧ (∀ b ∈ floods, Flooded b) ∧ o = resultOf a := by
  have hstage := h.stage
  rw [hpc] at hstage
  cases hstage with
  | inside hc => cases hc
  | result floods a has _ hf hz _ _ =>
    exact ⟨floods, a, List.length_eq_zero_iff.mp hz, has, hf, rfl⟩
  | early he =>
    rw [ho] at he
    cases he

/-! ## every step -/

theorem Attempts.handOver {x : Sent} (h : Attempts cfg s c line base ys zs as)
    (hpc : (s.execs c).pc = .locking) (hcaller : x.caller = c) (hline : x.line = (s.execs c).line)
    (hsent : s'.sent = s.sent ++ [x]) (hreceived : s'.received = s.received)
    (hline' : (s'.execs c).line = (s.execs c).line)
    (hattempt : (s'.execs c).attempt = (s.execs c).attempt)
    (hpc' : (s'.execs c).pc = .sending ∨
      (s'.execs c).pc = .awaiting (s.now + cfg.commandTimeout) ∨
      ∃ o, (s'.execs c).pc = .finished o ∧ o.early = true ∧ Excused s' c o) :
    zs = [] ∧ Attempts cfg s' c line base ys [x] as := by
  obtain ⟨h1, h2, h3, h4⟩ := h.stage.of_locking hpc
  have hzs : zs = [] := List.length_eq_zero_iff.mp h3
  rw [hzs] at h
  refine ⟨hzs, hline'.trans h.own, ?_, ?_, ?_, ?_, ?_⟩
  · have hfilter : s'.session.sentBy c = s.session.sentBy c ++ [x] := by
      show s'.sent.filter _ = s.sent.filter _ ++ [x]
      rw [hsent, List.filter_append, List.filter_cons_of_pos (by simpa using hcaller),
        List.filter_nil]
    rw [hfilter, h.sent, List.append_nil, List.append_assoc]
  · intro y hy
    rcases List.mem_append.mp hy with hy | hy
    · exact h.lines y (List.mem_append_left _ hy)
    · rw [List.mem_singleton.mp hy, hline, h.own]
  · rw [hreceived]
    exact h.answered
  · rw [hattempt]
    rcases hpc' with hpc' | hpc' | ⟨o, hpc', hearly, _⟩ <;> rw [hpc']
    · exact .inside rfl h1 h2 rfl h4
    · exact .inside rfl h1 h2 rfl h4
    · refine .early hearly h2 (Nat.le_refl _) ?_ h4
      rw [h1]
      exact Nat.le_refl _
  · intro o ho _
    rcases hpc' with hpc' | hpc' | ⟨o', hpc', _, hd⟩
    · rw [hpc'] at ho
      cases ho
    · rw [hpc'] at ho
      cases ho
    · cases ho.symm.trans hpc'
      exact hd

theorem Attempts.answer {data : List Bytes} {error : ErrorLine} (hb : Base s)
    (h : Attempts cfg s c line base ys zs as) (hst : Steady s.session s'.session c)
    (hc : (s.execs c).pc.critical = true) (hf : (s.execs c).future = .result data error)
    (hpc' : (s'.execs c).pc = answerPc cfg s.now (s.execs c).attempt data error) :
    ∃ z, zs = [z] ∧ Attempts cfg s' c line base (ys ++ [z]) [] (as ++ [(data, error)]) := by
  obtain ⟨h1, h2, h3, h4⟩ := h.stage.of_critical hc
  obtain ⟨z, hz, hans⟩ := h.last hb hc hf
  refine ⟨z, hz, hst.line.trans h.own, ?_, ?_, ?_, ?_, ?_⟩
  · rw [List.append_nil, ← hz]
    exact hst.sent.trans h.sent
  · rw [List.append_nil, ← hz]
    exact h.lines
  · refine List.rel_append (h.mono hb hst.received) (.cons ?_ .nil)
    obtain ⟨more, hmore⟩ := hst.received
    have hmore : s.received ++ more = s'.received := hmore
    rw [← hmore]
    refine hans.append (mark_of_mem_sentBy hb (c := c) ?_) more
    rw [h.sent, hz]
    simp
  · have hattempt : (s'.execs c).attempt = (s.execs c).attempt := hst.attempt
    rw [hattempt, hpc']
    rcases answerPc_cases cfg s.now (s.execs c).attempt (data, error) with
      ⟨hflood, hne, he⟩ | ⟨hlast, he⟩
    · rw [he]
      refine .sleeping _ ?_ ?_ rfl (lt_of_le_of_ne h4 hne)
      · rw [List.length_append, h1]
        rfl
      · intro b hmem
        rcases List.mem_append.mp hmem with hmem | hmem
        · exact h2 b hmem
        · rw [List.mem_singleton.mp hmem]
          exact hflood
    · rw [he]
      exact .result as _ rfl h1 h2 rfl h4 hlast
  · intro o ho hearly
    rw [answerPc_early (a := (data, error)) (hpc'.symm.trans ho)] at hearly
    cases hearly

theorem Attempts.retry {wake : ℚ} (h : Attempts cfg s c line base ys zs as)
    (hpc : (s.execs c).pc = .sleeping wake) :
    Attempts cfg (s.startAttempt cfg c ((s.execs c).attempt + 1)) c line base ys zs as := by
  obtain ⟨h1, h2, h3, h4⟩ := h.stage.of_sleeping hpc
  have hlt : ((((s.execs c).attempt + 1 : Nat)) : Int) < cfg.floodRetries + 1 := by
    push_cast
    omega
  unfold startAttempt
  rw [if_pos hlt]
  refine ⟨?_, h.sent, h.lines, h.answered, ?_, ?_⟩
  · rw [setExec_self]
    exact h.own
  · rw [setExec_self]
    refine .locking h1 h2 h3 ?_
    push_cast
    omega
  · rw [setExec_self]
    exact nofun

/-- **A step that does not start another call keeps `Attempts`**, with one more line or one more
answer, or none. -/
theorem step_attempts {a : Action} (hb : Base s) (hs : s.step cfg a = some s') (ha : ¬ Starts c a)
    (h : Attempts cfg s c line base ys zs as) :
    ∃ ys' zs' as', Attempts cfg s' c line base ys' zs' as' ∧ ys ++ zs <+: ys' ++ zs' := by
  have goesOn : Steady s.session s'.session c → (s.execs c).pc.critical = true →
      (s'.execs c).pc.critical = true → Attempts cfg s' c line base ys zs as := by
    intro hst hc hc'
    obtain ⟨h1, h2, h3, h4⟩ := h.stage.of_critical hc
    refine h.steady hb hst (.inside hc' h1 h2 h3 h4) fun o ho => ?_
    rw [ho] at hc'
    cases hc'
  cases step_call hb hs c ha with
  | still hst hpc =>
    refine ⟨ys, zs, as, h.steady hb hst ?_ ?_, List.prefix_rfl⟩
    · rw [hpc]
      exact h.stage
    · rw [hpc]
      exact fun o ho he => (h.early o ho he).imp (step_disturbed hb hs ha) id
  | handOver x hpc _ _ hcaller hline _ hsent hreceived hline' hattempt hpc' =>
    obtain ⟨rfl, h'⟩ := h.handOver hpc hcaller hline hsent hreceived hline' hattempt hpc'
    exact ⟨_, _, _, h', by rw [List.append_nil]; exact List.prefix_append _ _⟩
  | await hst hpc hpc' =>
    exact ⟨_, _, _, goesOn hst (by rw [hpc]; rfl) (by rw [hpc']; rfl), List.prefix_rfl⟩
  | close p hst hc hpc' _ =>
    exact ⟨_, _, _, goesOn hst hc (by rw [hpc']; rfl), List.prefix_rfl⟩
  | answer data error hst hc hf hpc' =>
    obtain ⟨z, rfl, h'⟩ := h.answer hb hst hc hf hpc'
    exact ⟨_, _, _, h', by rw [List.append_nil]⟩
  | stop o hst hn hpc' ho hd =>
    obtain ⟨h1, h2, h3, h4⟩ := h.stage.of_not_free hn
    refine ⟨ys, zs, as, h.steady hb hst ?_ fun o' ho' _ => ?_, List.prefix_rfl⟩
    · rw [hpc']
      exact .early ho h1 h2 h3 h4
    · cases ho'.symm.trans hpc'
      exact hd
  | retry wake hpc hle he => exact ⟨ys, zs, as, he ▸ h.retry hpc, List.prefix_rfl⟩

/-! ## the start of a call -/

theorem startExec_locking {r : Conn} {text : Except RenderError Bytes}
    (hpc : ((r.startExec cfg c text).execs c).pc = .locking) :
    ∃ line, text = .ok line ∧ ((r.startExec cfg c text).execs c).line = line ∧
      ((r.startExec cfg c text).execs c).attempt = 0 ∧ (0 : Int) ≤ cfg.floodRetries ∧
      (r.startExec cfg c text).sent = r.sent := by
  unfold startExec at hpc ⊢
  cases text with
  | error e =>
    simp only [] at hpc
    rw [setExec_self] at hpc
    cases hpc
  | ok line =>
    simp only [] at hpc ⊢
    unfold startAttempt at hpc ⊢
    by_cases hn : ((0 : Nat) : Int) < cfg.floodRetries + 1
    · rw [if_pos hn]
      have hself := setExec_self r c { line := line }
      refine ⟨line, rfl, ?_, ?_, by omega, rfl⟩
      · rw [setExec_self, hself]
      · rw [setExec_self]
    · rw [if_neg hn, finish_pc] at hpc
      cases hpc

theorem start_call {a : Action} (hb : Base s) (ha : Starts c a) (hs : s.step cfg a = some s')
    (hpc : (s'.execs c).pc = .locking) :
    Attempts cfg s' c (s'.execs c).line (s.session.sentBy c) [] [] [] ∧
      a.text = .ok (s'.execs c).line := by
  have begun : ∀ (r : Conn) (text : Except RenderError Bytes), r.sent = s.sent →
      s' = r.startExec cfg c text →
      Attempts cfg s' c (s'.execs c).line (s.session.sentBy c) [] [] []
        ∧ text = .ok (s'.execs c).line := by
    rintro r text hr rfl
    obtain ⟨line, htext, hline, hattempt, hn, hsent⟩ := startExec_locking hpc
    refine ⟨⟨rfl, ?_, fun x hx => absurd hx List.not_mem_nil, .nil, ?_, ?_⟩, by rw [hline, htext]⟩
    · show (r.startExec cfg c text).sent.filter _ = _
      rw [hsent, hr, List.append_nil, List.append_nil]
      rfl
    · rw [hpc, hattempt]
      exact .locking rfl (fun b hb => absurd hb List.not_mem_nil) rfl hn
    · rw [hpc]
      exact nofun
  cases c with
  | task n =>
    cases a with
    | exec m cmd options blocks params =>
      cases ha
      cases step_cases hs with
      | exec _ => exact begun s _ rfl rfl
      | feed hfa _ => cases hfa
    | _ => cases ha
  | keepalive =>
    cases a with
    | keepalive =>
      have still : ∀ {r : Conn}, r.execs = s.execs → s' = r → KeepaliveIdle s → False := by
        rintro r hr rfl hidle
        rw [hr] at hpc
        have := hidle.free hb.tasks.keepalive
        rw [hpc] at this
        cases this
      cases step_cases hs with
      | keepalive hk =>
        obtain ⟨hidle, he | hround⟩ := hk.round
        · exact (still (r := { s with keepaliveTask := .ended }) rfl he hidle).elim
        · cases hround with
          | ended _ => exact (still (r := { s with keepaliveTask := .ended }) rfl rfl hidle).elim
          | sleeps _ _ =>
            exact (still (r := { s with keepaliveTask := .sleeping _ }) rfl rfl hidle).elim
          | issues _ _ => exact begun { s with keepaliveTask := .executing } _ rfl rfl
      | feed hfa _ => cases hfa
    | _ => cases ha

/-! ## every run -/

def sameCall (c : Caller) (_ : Conn) (a : Action) : Prop := ¬ Starts c a

/-- **Where a call is at any moment of any run.** -/
theorem attempts_of_run {s₁ : Conn} (hb : Base s₁)
    (h₁ : Attempts cfg s₁ c line base [] [] [])
    (h : Sys.Reach (step cfg) (sameCall c) s₁ s) :
    Base s ∧ ∃ ys zs as, Attempts cfg s c line base ys zs as := by
  refine h.inv (I := fun s => Base s ∧ ∃ ys zs as, Attempts cfg s c line base ys zs as)
    ⟨hb, [], [], [], h₁⟩ ?_
  rintro r a r' ⟨hb, ys, zs, as, hr⟩ ha hs
  obtain ⟨ys', zs', as', hr', _⟩ := step_attempts hb hs ha hr
  exact ⟨step_base hb hs, ys', zs', as', hr'⟩

end

/-! ## the answers given -/

/-- `m` is the index of the answer that decides a call: the one after the leading floods, unless
the retries are used up before -/
structure Decides (n : Int) (answers : Nat → Ans) (m : Nat) : Prop where
  le : (m : Int) ≤ n
  floods : ∀ i < m, Flooded (answers i)
  last : Flooded (answers m) → (m : Int) = n

/-- as far as the lines `xs` are answered, `answers` are the answers -/
def AnsweredBy (s : Conn) (xs : List Sent) (answers : Nat → Ans) : Prop :=
  ∀ i x a, xs[i]? = some x → Answered s.received x.mark a.1 a.2 → a = answers i

section
variable {cfg : Config} {s : Conn} {c : Caller} {line : Bytes} {base ys zs : List Sent}
  {as : List Ans} {answers : Nat → Ans} {m : Nat}

theorem Attempts.eq_answers (h : Attempts cfg s c line base ys zs as)
    (ha : AnsweredBy s (ys ++ zs) answers) {i : Nat} (hi : i < as.length) : as[i] = answers i := by
  have hlen := h.answered.length_eq
  have hlt : i < ys.length := by omega
  refine ha i ys[i] as[i] ?_ (h.answered.get hlt hi)
  rw [List.getElem?_append_left hlt]
  exact List.getElem?_eq_getElem hlt

/-- while only floods have come, the answer that decides is still to come, or the last one -/
theorem Attempts.length_le (h : Attempts cfg s c line base ys zs as)
    (ha : AnsweredBy s (ys ++ zs) answers) (hm : Decides cfg.floodRetries answers m)
    (hf : ∀ a ∈ as, Flooded a) : as.length ≤ m ∨ (m : Int) = cfg.floodRetries := by
  rcases Nat.lt_or_ge m as.length with hlt | hge
  · have hlast := hf as[m] (List.getElem_mem hlt)
    rw [h.eq_answers ha hlt] at hlast
    exact Or.inr (hm.last hlast)
  · exact Or.inl hge

/-- **What a call has sent, and how it ends**, the answers being given. -/
theorem Attempts.decided (h : Attempts cfg s c line base ys zs as)
    (ha : AnsweredBy s (ys ++ zs) answers) (hm : Decides cfg.floodRetries answers m) :
    (ys ++ zs).length ≤ m + 1 ∧ ∀ o, (s.execs c).pc = .finished o → o.early = false →
      (ys ++ zs).length = m + 1 ∧ o = resultOf (answers m) := by
  have hlen := h.answered.length_eq
  have hle := h.length_le ha hm
  have hsum : (ys ++ zs).length = as.length + zs.length := by rw [List.length_append, hlen]
  rw [hsum]
  generalize hpc : (s.execs c).pc = pc
  have hstage := h.stage
  rw [hpc] at hstage
  cases hstage with
  | locking h1 h2 h3 h4 =>
    have := hle h2
    exact ⟨by omega, nofun⟩
  | inside hc h1 h2 h3 h4 =>
    have := hle h2
    refine ⟨by omega, ?_⟩
    rintro o rfl
    cases hc
  | sleeping _ h1 h2 h3 h4 =>
    have := hle h2
    exact ⟨by omega, nofun⟩
  | result init a h1 h2 h3 h4 h5 h6 =>
    have hall : as.length = init.length + 1 := by rw [h1, List.length_append]; rfl
    have ha' : a = answers init.length := by
      have hi : init.length < as.length := by omega
      have hget := h.eq_answers ha hi
      simp only [h1, List.getElem_concat_length] at hget
      exact hget
    -- the last answer is the one that decides
    have heq : init.length = m := by
      rcases Nat.lt_trichotomy init.length m with hlt | heq | hgt
      · have := h6 (ha' ▸ hm.floods _ hlt)
        have := hm.le
        omega
      · exact heq
      · have hi : m < as.length := by omega
        have hfl := h3 init[m] (List.getElem_mem hgt)
        have hget := h.eq_answers ha hi
        simp only [h1, List.getElem_append_left hgt] at hget
        have := hm.last (hget ▸ hfl)
        omega
    refine ⟨by omega, ?_⟩
    rintro o ⟨⟩ _
    exact ⟨by omega, by rw [ha', heq]⟩
  | early ho h1 h2 h3 h4 =>
    refine ⟨?_, ?_⟩
    · have := hle h1
      omega
    · rintro o ⟨⟩ hearly
      rw [ho] at hearly
      cases hearly

end

end Conn
end Atsq
