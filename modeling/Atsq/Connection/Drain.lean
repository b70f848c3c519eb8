import Atsq.Connection.Projection
import Atsq.Lib.Trace

/-!
# The events of a closed connection

Nothing is published any more, so that the consumers come to the end of the queue.

* `Drained f f' a`   a step of a closed event side: an event goes to a consumer, or none does;
* `runsLeft s n`    how often a consumer that asks for one event after the other may still run.

Main results: `runsLeft_le` and `runsLeft_wait`, nobody else makes it run once more, and each event
costs it two runs; `exists_finished`, it can always be served.
-/

namespace Atsq
open Py

namespace Feed

/-- how a step of a closed event side changes the queue and the consumers -/
inductive Drained (f f' : Feed) (a : Act) : Prop where
  | takes (n : Nat) (e : Event) : a.consumer = some n → f.queued = e :: f'.queued →
      f'.waits = Function.update f.waits n { pc := .finished (.event e) } → Drained f f' a
  | ends (n : Nat) (o : WaitOutcome) : a.consumer = some n → f'.queued = f.queued →
      (∀ e, o ≠ .event e) → f'.waits = Function.update f.waits n { pc := .finished o } →
      Drained f f' a
  | keeps : a.consumer = none → f'.queued = f.queued → (∀ m, (f'.waits m).pc = (f.waits m).pc) →
      Drained f f' a

theorem drained_of_step {f f' : Feed} {a : Act} (hl : Ledger f) (hc : f.closed = true)
    (hs : f.step a = some f') : Drained f f' a := by
  have hl' := step_ledger hl hs
  have hpublished : f'.published = f.published := by
    refine Conn.published_feed hs ?_ ?_
    · rintro e rfl
      rw [step, if_pos hc] at hs
      cases hs
    · rintro rfl
      rw [step, if_pos hc] at hs
      cases hs
  -- what is removed is what the queue loses
  have hhistory : f'.removed.map Prod.snd ++ f'.queued = f.removed.map Prod.snd ++ f.queued := by
    rw [← hl'.history, ← hl.history, hpublished]
  have hkeeps : f'.removed = f.removed → f'.queued = f.queued := by
    intro hr
    rw [hr] at hhistory
    exact List.append_cancel_left hhistory
  have hget : ∀ (q : Aio.Queue Item Nat) (n : Nat) (d : Option ℚ), q.items = f.eventQueue.items →
      a.consumer = some n → f' = { f with eventQueue := q }.get n d → Drained f f' a := by
    intro q n d hq ha hf'
    rcases get_cases hl q hq n d with ⟨e, evs, hevs, hr, hw⟩ | ⟨_, hr, hw⟩
    · rw [← hf'] at hr hw
      refine .takes n e ha ?_ hw
      rw [hr, List.map_append, List.append_assoc] at hhistory
      exact (List.append_cancel_left hhistory).symm
    · rw [← hf'] at hr hw
      rw [hc] at hw
      exact .ends n .connectionClosed ha (hkeeps hr) (fun e he => by cases he) hw
  cases step_cases hs with
  | publish e hopen =>
    rw [hc] at hopen
    cases hopen
  | shutdown hopen =>
    rw [hc] at hopen
    cases hopen
  | @waitClosed n _ _ _ _ =>
    exact .ends n .connectionClosed rfl rfl (fun e he => by cases he) rfl
  | @waitGet n d _ => exact hget f.eventQueue n d rfl rfl rfl
  | @giveUp n d o _ _ ho =>
    refine .ends n o rfl (hkeeps rfl) (fun e he => ?_) rfl
    rw [he] at ho
    split at ho <;> cases ho
  | @wake n d _ _ _ => exact hget (f.eventQueue.unpark n) n d rfl rfl rfl
  | @expire n _ _ hpc _ =>
    refine .keeps rfl (hkeeps rfl) fun m => ?_
    show (Function.update f.waits n _ m).pc = _
    by_cases hm : m = n
    · rw [hm, Function.update_self]
    · rw [Function.update_of_ne hm]
  | @cancel n _ _ =>
    refine .keeps rfl (hkeeps rfl) fun m => ?_
    show (Function.update f.waits n _ m).pc = _
    by_cases hm : m = n
    · rw [hm, Function.update_self]
    · rw [Function.update_of_ne hm]

/-! ## who is next -/

structure Moved (f f' : Feed) (a : Act) : Prop where
  moves : ∀ m, a.consumer = some m → (f'.waits m).pc ≠ .idle
  stays : ∀ m, a.consumer ≠ some m → (f'.waits m).pc = (f.waits m).pc

theorem Moved.of_update {f f' : Feed} {a : Act} {n : Nat} {w : Wait} (ha : a.consumer = some n)
    (hw : f'.waits = Function.update f.waits n w) (hpc : w.pc ≠ .idle) : Moved f f' a := by
  refine ⟨fun m hm => ?_, fun m hm => ?_⟩
  · rw [hm] at ha
    cases ha
    rw [hw, Function.update_self]
    exact hpc
  · have hmn : m ≠ n := fun e => hm (e ▸ ha)
    rw [hw, Function.update_of_ne hmn]

theorem Moved.of_flag {f : Feed} {a : Act} {n : Nat} {w : Wait} (ha : a.consumer = none)
    (hpc : w.pc = (f.waits n).pc) : Moved f (f.flagWait n w) a := by
  refine ⟨fun m hm => ?_, fun m _ => ?_⟩
  · rw [hm] at ha
    cases ha
  · show (Function.update f.waits n w m).pc = _
    by_cases hmn : m = n
    · rw [hmn, Function.update_self, hpc]
    · rw [Function.update_of_ne hmn]

theorem moved_of_step {f f' : Feed} {a : Act} (hl : Ledger f) (hs : f.step a = some f') :
    Moved f f' a := by
  have hget : ∀ (q : Aio.Queue Item Nat) (n : Nat) (d : Option ℚ), q.items = f.eventQueue.items →
      a.consumer = some n → f' = { f with eventQueue := q }.get n d → Moved f f' a := by
    intro q n d hq ha hf'
    rcases get_cases hl q hq n d with ⟨e, _, _, _, hw⟩ | ⟨_, _, hw⟩ <;> rw [← hf'] at hw
    · exact .of_update ha hw nofun
    · refine .of_update ha hw fun hidle => ?_
      cases hc : f.closed <;> rw [hc] at hidle <;> cases hidle
  cases step_cases hs with
  | publish e _ => exact ⟨nofun, fun _ _ => rfl⟩
  | shutdown _ => exact ⟨nofun, fun _ _ => rfl⟩
  | waitClosed _ _ _ => exact .of_update rfl rfl nofun
  | @waitGet n d _ => exact hget f.eventQueue n d rfl rfl rfl
  | giveUp _ _ _ => exact .of_update rfl rfl nofun
  | @wake n d _ _ _ => exact hget (f.eventQueue.unpark n) n d rfl rfl rfl
  | expire _ _ => exact .of_flag rfl rfl
  | cancel _ => exact .of_flag rfl rfl

/-- once closed, if somebody waits in the queue, somebody is woken -/
theorem exists_woken {f : Feed} (hl : Ledger f) (hw : Waiters f) (hc : f.closed = true) {n : Nat}
    (hn : n ∈ f.eventQueue.consumers) : ∃ m, m ∈ f.eventQueue.woken := by
  refine List.exists_mem_of_ne_nil _ fun hnil => ?_
  rw [Aio.Queue.consumers, hnil, List.nil_append] at hn
  have hlen := hw.fair (List.ne_nil_of_mem hn)
  have hshape := congrArg List.length hl.shape
  rw [hc, List.length_append, sentinel, if_pos rfl, List.length_singleton] at hshape
  rw [hnil, List.length_nil] at hlen
  omega

theorem consumers_resume {f f' : Feed} (hl : Ledger f) (hw : Waiters f) (hc : f.closed = true)
    {m : Nat} (hm : m ∈ f.eventQueue.woken) (hs : f.step (.resume m) = some f') :
    f'.eventQueue.consumers = f.eventQueue.consumers.erase m := by
  cases step_cases hs with
  | giveUp _ _ _ =>
    have hgetter : m ∉ f.eventQueue.getters := fun hget =>
      (List.nodup_append.mp hw.nodup).2.2 m hm m hget rfl
    exact Aio.Queue.consumers_giveUp _ m hgetter
  | wake _ _ _ =>
    have hunpark := f.eventQueue.consumers_unpark m hm
    unfold get
    split
    · rename_i hi
      have hshape := hi.symm.trans hl.shape
      rw [hc] at hshape
      cases hq : f.queued with
      | nil => rw [hq] at hshape; cases hshape
      | cons e evs => rw [hq] at hshape; cases hshape
    · rename_i x xs hi
      rcases items_cons_cases hl hi with ⟨e, evs, rfl, _, _⟩ | ⟨rfl, rfl, _, _⟩
      · exact hunpark
      · rw [takeItem_queueClosed _ m rfl]
        exact (Aio.Queue.wakeupNext_consumers _).trans hunpark

end Feed

/-- how often a consumer that asks for one event after the other may still run, while `k` events are
queued: once for the event, and once when it was handled -/
def WaitPc.rank (k : Nat) : WaitPc → Nat
  | .finished (.event _) => 2 * k + 4
  | .finished _ => 1
  | _ => 2 * k + 2

theorem WaitPc.rank_of_ends {o : WaitOutcome} (h : ∀ e, o ≠ .event e) (k : Nat) :
    (WaitPc.finished o).rank k = 1 := by
  cases o with
  | event e => exact absurd rfl (h e)
  | _ => rfl

theorem WaitPc.rank_le (k : Nat) (pc : WaitPc) : pc.rank k ≤ 2 * k + 4 := by
  cases pc with
  | finished o => cases o <;> simp only [WaitPc.rank] <;> omega
  | _ =>
    simp only [WaitPc.rank]
    omega

theorem WaitPc.rank_pos (k : Nat) (pc : WaitPc) : 1 ≤ pc.rank k := by
  cases pc with
  | finished o => cases o <;> simp [WaitPc.rank]
  | _ => simp [WaitPc.rank]

theorem WaitPc.rank_mono {k k' : Nat} (h : k' ≤ k) (pc : WaitPc) : pc.rank k' ≤ pc.rank k := by
  cases pc with
  | finished o => cases o <;> simp only [WaitPc.rank] <;> omega
  | _ =>
    simp only [WaitPc.rank]
    omega

namespace Conn

def runsLeft (s : Conn) (n : Nat) : Nat := (s.waits n).pc.rank s.queued.length

section
variable {cfg : Config} {s s' : Conn} {a : Action}

theorem drained_of_step (hb : Base s) (hc : s.closed = true) (hs : s.step cfg a = some s') :
    s'.toFeed = s.toFeed ∨ ∃ fa : Feed.Act, fa.consumer = a.consumer ∧
      Feed.Drained s.toFeed s'.toFeed fa := by
  rcases (step_effect hb.tasks hs).step_feed with ⟨hf, _⟩ | ⟨fa, hf, ha⟩
  · exact Or.inl hf
  · exact Or.inr ⟨fa, ha, Feed.drained_of_step hb.ledger hc hf⟩

theorem queued_le (hb : Base s) (hc : s.closed = true) (hs : s.step cfg a = some s') :
    s'.queued.length ≤ s.queued.length := by
  rcases drained_of_step hb hc hs with hf | ⟨fa, _, hd⟩
  · rw [hf]
  · cases hd with
    | takes n e _ hq _ =>
      rw [hq]
      exact Nat.le_succ _
    | ends n o _ hq _ _ => rw [hq]
    | keeps _ hq _ => rw [hq]

theorem getting_of_consumer {m : Nat} (hs : s.step cfg a = some s') (ha : a.consumer = some m)
    (hwait : ∀ d, a ≠ .wait m d) : ∃ d, (s.waits m).pc = .getting d := by
  cases a with
  | wait k d =>
    cases ha
    exact absurd rfl (hwait d)
  | resumeWait k =>
    cases ha
    obtain ⟨f', hf', _⟩ := Option.map_eq_some_iff.mp hs
    cases Feed.step_cases (a := .resume m) hf' with
    | giveUp hpc _ _ => exact ⟨_, hpc⟩
    | wake hpc _ _ => exact ⟨_, hpc⟩
  | _ => cases ha

/-- nobody makes a consumer run once more -/
theorem runsLeft_le (hb : Base s) (hc : s.closed = true) (hs : s.step cfg a = some s') {n : Nat}
    (hwait : ∀ d, a ≠ .wait n d) : s'.runsLeft n ≤ s.runsLeft n := by
  have hle := queued_le hb hc hs
  unfold runsLeft
  rcases drained_of_step hb hc hs with hf | ⟨fa, ha, hd⟩
  · rw [hf]
  · -- a step for another consumer, or for none
    have hsame : (s'.waits n).pc = (s.waits n).pc →
        (s'.waits n).pc.rank s'.queued.length
          ≤ (s.waits n).pc.rank s.queued.length := by
      intro hpc
      rw [hpc]
      exact WaitPc.rank_mono hle _
    cases hd with
    | keeps _ _ hpc => exact hsame (hpc _)
    | takes m e hm hq hw =>
      by_cases hmn : n = m
      · subst hmn
        obtain ⟨d, hd⟩ := getting_of_consumer hs (ha.symm.trans hm) hwait
        rw [hd, hw, Function.update_self, hq]
        simp only [WaitPc.rank, List.length_cons]
        omega
      · exact hsame (by rw [hw, Function.update_of_ne hmn])
    | ends m o hm _ ho hw =>
      by_cases hmn : n = m
      · subst hmn
        rw [hw, Function.update_self, WaitPc.rank_of_ends ho]
        exact WaitPc.rank_pos _ _
      · exact hsame (by rw [hw, Function.update_of_ne hmn])

theorem runsLeft_wait (hb : Base s) (hc : s.closed = true) {n : Nat}
    (hs : s.step cfg (.wait n none) = some s') :
    s'.runsLeft n ≤ 2 * s.queued.length + 2 := by
  unfold runsLeft
  obtain ⟨f', hf', rfl⟩ := Option.map_eq_some_iff.mp hs
  cases Feed.drained_of_step (a := .wait n _) hb.ledger hc hf' with
  | keeps hm _ _ => cases hm
  | takes m e hm hq hw =>
    cases hm
    show (f'.waits n).pc.rank f'.queued.length ≤ _
    rw [hw, Function.update_self, hq]
    simp only [WaitPc.rank, List.length_cons]
    omega
  | ends m o hm _ ho hw =>
    cases hm
    show (f'.waits n).pc.rank f'.queued.length ≤ _
    rw [hw, Function.update_self, WaitPc.rank_of_ends ho]
    omega

/-! ## a consumer can be served -/

theorem exists_wait {m : Nat} {d : Option ℚ} (hm : ¬ s.toFeed.Waiting m) :
    ∃ s', s.step cfg (.wait m d) = some s' := by
  have hfree : (s.waits m).free = true := by
    unfold Wait.free
    cases hpc : (s.waits m).pc with
    | getting d => exact absurd ⟨d, hpc⟩ hm
    | _ => rfl
  show ∃ s', (s.toFeed.waitForEvent m (s.deadlineOf d)).map s.withFeed = some s'
  unfold Feed.waitForEvent
  rw [if_pos hfree]
  split <;> exact ⟨_, rfl⟩

theorem moved_of_step (hb : Base s) (hs : s.step cfg a = some s') (m : Nat) :
    (a.consumer = some m ∧ (s'.waits m).pc ≠ .idle) ∨ (s'.waits m).pc = (s.waits m).pc := by
  rcases (step_effect hb.tasks hs).step_feed with ⟨hf, _⟩ | ⟨fa, hf, ha⟩
  · exact Or.inr (by rw [hf])
  · have hmoved := Feed.moved_of_step hb.ledger hf
    by_cases hm : fa.consumer = some m
    · exact Or.inl ⟨ha.symm.trans hm, hmoved.moves m hm⟩
    · exact Or.inr (hmoved.stays m hm)

/-- who has called `wait_for_event` is inside the call, or has its result -/
theorem called_of_step (hb : Base s) (hs : s.step cfg a = some s') {m : Nat}
    (hm : (s.waits m).pc ≠ .idle) : (s'.waits m).pc ≠ .idle := by
  rcases moved_of_step hb hs m with ⟨_, h⟩ | h
  · exact h
  · rw [h]
    exact hm

theorem called_of_wait (hb : Base s) {m : Nat} {d : Option ℚ}
    (hs : s.step cfg (.wait m d) = some s') : (s'.waits m).pc ≠ .idle := by
  obtain ⟨f', hf', rfl⟩ := Option.map_eq_some_iff.mp hs
  have hmoved := Feed.moved_of_step (a := .wait m _) hb.ledger hf'
  exact hmoved.moves m rfl

theorem waiting_of_step (hb : Base s) (hs : s.step cfg a = some s') {m : Nat}
    (ha : ∀ d, a ≠ .wait m d) (hm : s'.toFeed.Waiting m) : s.toFeed.Waiting m := by
  rcases moved_of_step hb hs m with ⟨hconsumer, _⟩ | h
  · exact getting_of_consumer hs hconsumer ha
  · obtain ⟨d, hd⟩ := hm
    exact ⟨d, h ▸ hd⟩

def Wakes : Conn → Action → Prop := fun _ a => ∃ m, a = .resumeWait m

/-- how many runs of consumers it takes until this one is served -/
def position (s : Conn) (n : Nat) : Nat :=
  if (s.waits n).free then 0
  else if (s.waits n).flagged then 1
  else s.eventQueue.consumers.length + 1

theorem position_eq_zero {n : Nat} : s.position n = 0 ↔ (s.waits n).free = true := by
  unfold position
  split
  · exact ⟨fun _ => ‹_›, fun _ => rfl⟩
  · rename_i hfree
    refine ⟨fun h => ?_, fun h => absurd h hfree⟩
    split at h
    · cases h
    · cases h

theorem exists_wakes (hb : Base s) (hc : s.closed = true) {n : Nat} (hn : s.toFeed.Waiting n) :
    ∃ m s', s.step cfg (.resumeWait m) = some s' ∧ s'.position n < s.position n := by
  obtain ⟨d, hd⟩ := hn
  have hbusy : (s.waits n).free = false := by
    unfold Wait.free
    rw [hd]
  have hserved : ∀ {f' : Feed} {o : WaitOutcome},
      f'.waits = Function.update s.waits n { pc := .finished o } →
      (s.withFeed f').position n < s.position n := by
    intro f' o hw
    have hzero : (s.withFeed f').position n = 0 := by
      rw [position_eq_zero]
      show (f'.waits n).free = true
      rw [hw, Function.update_self]
      rfl
    have hpos : s.position n ≠ 0 := fun h => by
      rw [position_eq_zero.mp h] at hbusy
      cases hbusy
    omega
  cases hfl : (s.waits n).flagged with
  | true =>
    obtain ⟨f', hf'⟩ := s.toFeed.resume_enabled ⟨d, hd⟩ (Or.inl hfl)
    obtain ⟨o, ho⟩ := Feed.resume_finished hb.ledger hc hf'
    exact ⟨n, s.withFeed f', congrArg (Option.map s.withFeed) hf', hserved ho⟩
  | false =>
    have hlisted := hb.waiters.listed n d hd hfl
    obtain ⟨m, hm⟩ := Feed.exists_woken hb.ledger hb.waiters hc hlisted
    have hwait : s.toFeed.Waiting m := hb.waiters.inside m (List.mem_append_left _ hm)
    obtain ⟨f', hf'⟩ := s.toFeed.resume_enabled hwait (Or.inr hm)
    obtain ⟨o, ho⟩ := Feed.resume_finished hb.ledger hc hf'
    refine ⟨m, s.withFeed f', congrArg (Option.map s.withFeed) hf', ?_⟩
    by_cases hmn : m = n
    · subst hmn
      exact hserved ho
    · have hsame : (s.withFeed f').waits n = s.waits n := by
        show f'.waits n = _
        rw [ho, Function.update_of_ne (Ne.symm hmn)]
      have hmem : m ∈ s.eventQueue.consumers := List.mem_append_left _ hm
      have hlen := List.length_erase_of_mem hmem
      rw [← Feed.consumers_resume hb.ledger hb.waiters hc hm hf'] at hlen
      have hpos := List.length_pos_of_mem hmem
      unfold position
      rw [hsame, hfl, hbusy, if_neg (by decide), if_neg (by decide)]
      show f'.eventQueue.consumers.length + 1 < s.eventQueue.consumers.length + 1
      omega

/-- **A consumer of a closed connection can be served**: those before it run, and then it does. -/
theorem exists_finished (hb : Base s) (hc : s.closed = true) {n : Nat}
    (hn : (s.waits n).pc ≠ .idle) :
    ∃ s', Sys.Reach (step cfg) Wakes s s' ∧ ∃ o, (s'.waits n).pc = .finished o := by
  have hserve : ∀ r : Conn, (Base r ∧ r.closed = true ∧ (r.waits n).pc ≠ .idle) →
      r.position n ≠ 0 → ∃ r', Sys.Reach (step cfg) Wakes r r' ∧
        (Base r' ∧ r'.closed = true ∧ (r'.waits n).pc ≠ .idle) ∧ r'.position n < r.position n := by
    rintro r ⟨hb, hc, hn⟩ hpos
    have hwait : r.toFeed.Waiting n := by
      cases hpc : (r.waits n).pc with
      | getting d => exact ⟨d, hpc⟩
      | _ =>
        refine absurd (position_eq_zero.mpr ?_) hpos
        unfold Wait.free
        rw [hpc]
    have hwakes : ∃ m r', r.step cfg (.resumeWait m) = some r' ∧ r'.position n < r.position n :=
      exists_wakes hb hc hwait
    obtain ⟨m, r', hs, hlt⟩ := hwakes
    exact ⟨r', Sys.Reach.init.step ⟨m, rfl⟩ hs,
      ⟨step_base hb hs, step_closed hs hc, called_of_step hb hs hn⟩, hlt⟩
  obtain ⟨s', hreach, ⟨_, _, hcalled⟩, hzero⟩ :=
    Sys.exists_reach_of_rank (step cfg) (fun r => r.position n) hserve s ⟨hb, hc, hn⟩
  have hfree := position_eq_zero.mp hzero
  unfold Wait.free at hfree
  cases hpc : (s'.waits n).pc with
  | idle => exact absurd hpc hcalled
  | getting d =>
    rw [hpc] at hfree
    cases hfree
  | finished o => exact ⟨s', hreach, o, hpc⟩

end
end Conn
end Atsq
