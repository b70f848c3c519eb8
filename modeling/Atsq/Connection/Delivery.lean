import Atsq.Connection.Feed

/-!
# Where every event is, and who waits for the next one

* `Ledger f`    the queue holds events and, once closed, the sentinel behind them; what was
                published is what was removed followed by what is queued;
* `Waiters f`   a suspended consumer that was not cancelled is among the getters or woken, and no
                wakeup is lost.

Main results: `Feed.step_ledger`, `Feed.step_waiters` (every step keeps them), `Feed.step_removed`
(what a step removes), `Feed.exists_woken` (once closed, some consumer can run as long as one
waits) and `Feed.resume_finished`.
-/

namespace Atsq
open Py

/-- what stands behind the events -/
def sentinel (closed : Bool) : List Item := if closed then [.queueClosed] else []

theorem filterMap_event (evs : List Event) :
    (evs.map Item.event).filterMap Item.event? = evs := by
  rw [List.filterMap_map]
  exact List.filterMap_some

theorem filterMap_sentinel (closed : Bool) : (sentinel closed).filterMap Item.event? = [] := by
  cases closed <;> rfl

structure Ledger (f : Feed) : Prop where
  shape : f.eventQueue.items = f.queued.map Item.event ++ sentinel f.closed
  history : f.published = f.removed.map Prod.snd ++ f.queued
  bound : 0 < f.eventQueue.maxsize → (f.eventQueue.items.length : Int) ≤ f.eventQueue.maxsize
  putBack : ∀ n, (f.waits n).pc ≠ .finished .queueFull

theorem queued_eq {f : Feed} {evs : List Event} {closed : Bool}
    (h : f.eventQueue.items = evs.map Item.event ++ sentinel closed) : f.queued = evs := by
  unfold Feed.queued
  rw [h, List.filterMap_append, filterMap_event, filterMap_sentinel, List.append_nil]

theorem Ledger.of {f : Feed} (evs : List Event)
    (shape : f.eventQueue.items = evs.map Item.event ++ sentinel f.closed)
    (history : f.published = f.removed.map Prod.snd ++ evs)
    (bound : 0 < f.eventQueue.maxsize → (f.eventQueue.items.length : Int) ≤ f.eventQueue.maxsize)
    (putBack : ∀ n, (f.waits n).pc ≠ .finished .queueFull) : Ledger f := by
  have hq := queued_eq shape
  exact ⟨by rw [hq]; exact shape, by rw [hq]; exact history, bound, putBack⟩

theorem Ledger.init (size : Int) : Ledger { eventQueue := { maxsize := size } } :=
  .of [] rfl rfl (fun h => h.le) (fun _ h => by cases h)

namespace Feed

/-- a consumer's record does not matter here, unless the put-back of the sentinel failed -/
theorem setWait_putBack {f : Feed} (h : ∀ m, (f.waits m).pc ≠ .finished .queueFull) (n : Nat)
    (w : Wait) (hw : w.pc ≠ .finished .queueFull) (m : Nat) :
    ((f.setWait n w).waits m).pc ≠ .finished .queueFull := by
  show (Function.update f.waits n w m).pc ≠ _
  rw [Function.update_apply]
  split
  · exact hw
  · exact h m

theorem ledger_setWait {f : Feed} (h : Ledger f) (n : Nat) (w : Wait)
    (hw : w.pc ≠ .finished .queueFull) : Ledger (f.setWait n w) :=
  ⟨h.shape, h.history, h.bound, setWait_putBack h.putBack n w hw⟩

theorem ledger_finishWait {f : Feed} (h : Ledger f) (n : Nat) (o : WaitOutcome)
    (ho : o ≠ .queueFull) : Ledger (f.finishWait n o) :=
  ledger_setWait h n _ fun e => ho (WaitPc.finished.inj e)

theorem ledger_eventQueue {f : Feed} (h : Ledger f) (q : Aio.Queue Item Nat)
    (hi : q.items = f.eventQueue.items) (hm : q.maxsize = f.eventQueue.maxsize) :
    Ledger { f with eventQueue := q } := by
  refine .of f.queued ?_ h.history ?_ h.putBack
  · show q.items = _
    rw [hi]
    exact h.shape
  · show 0 < q.maxsize → (q.items.length : Int) ≤ q.maxsize
    rw [hi, hm]
    exact h.bound

/-! ## what the producers do -/

/-- a put into a queue of events: `dropped` is what it evicts, at most one event and only from a
full queue -/
theorem evictingPut_open {f : Feed} (h : Ledger f) (hc : f.closed = false) (x : Item) :
    ∃ dropped kept, f.queued = dropped ++ kept ∧
      (f.evictingPut x).eventQueue.items = kept.map Item.event ++ [x] ∧
      (f.evictingPut x).removed = f.removed ++ dropped.map (fun e => (Fate.evicted, e)) ∧
      dropped.length ≤ 1 ∧ (dropped ≠ [] → f.eventQueue.full = true) := by
  obtain ⟨rest, h1, h2⟩ := f.eventQueue.evictingPut_items x
  have hshape := h.shape
  rw [hc] at hshape
  have hevents : f.queued.map Item.event = (f.eventQueue.evictingPut x).1 ++ rest := by
    rw [← h1, hshape]
    exact (List.append_nil _).symm
  obtain ⟨dropped, kept, hq, hd, hk⟩ := List.map_eq_append_iff.mp hevents
  refine ⟨dropped, kept, hq, ?_, ?_, ?_, ?_⟩
  · rw [hk]
    exact h2
  · show f.removed ++ _ = _
    rw [← hd, filterMap_event]
  · have := f.eventQueue.evictingPut_length_le_one x h.bound
    rwa [← hd, List.length_map] at this
  · intro hne
    refine f.eventQueue.full_of_evictingPut_ne_nil x ?_
    rw [← hd]
    exact fun e => hne (List.map_eq_nil_iff.mp e)

theorem evictingPut_history {f : Feed} (h : Ledger f) {dropped kept : List Event}
    (hq : f.queued = dropped ++ kept)
    (hr : f.removed ++ dropped.map (fun e => (Fate.evicted, e)) = (f.evictingPut x).removed) :
    f.published = (f.evictingPut x).removed.map Prod.snd ++ kept := by
  rw [h.history, ← hr, List.map_append, List.map_map, hq, ← List.append_assoc]
  congr 2
  exact (List.map_id dropped).symm

theorem ledger_publishEvent {f : Feed} (h : Ledger f) (hc : f.closed = false) (e : Event) :
    Ledger (f.publishEvent e) := by
  obtain ⟨dropped, kept, hq, hi, hr, _, _⟩ := evictingPut_open h hc (.event e)
  refine .of (kept ++ [e]) ?_ ?_ (f.eventQueue.evictingPut_length _) h.putBack
  · show (f.evictingPut (.event e)).eventQueue.items = _ ++ sentinel f.closed
    rw [hi, hc, List.map_append]
    exact (List.append_nil _).symm
  · show f.published ++ [e] = (f.evictingPut (.event e)).removed.map Prod.snd ++ (kept ++ [e])
    rw [evictingPut_history h hq hr.symm, List.append_assoc]

theorem ledger_shutdown {f : Feed} (h : Ledger f) (hc : f.closed = false) :
    Ledger { f with closed := true }.publishEventSentinel := by
  obtain ⟨dropped, kept, hq, hi, hr, _, _⟩ := evictingPut_open h hc .queueClosed
  exact .of kept hi (evictingPut_history h hq hr.symm)
    (f.eventQueue.evictingPut_length _) h.putBack

/-! ## what the consumers do -/

theorem items_cons_cases {f : Feed} (h : Ledger f) {x : Item} {xs : List Item}
    (hi : f.eventQueue.items = x :: xs) :
    (∃ e evs, x = .event e ∧ f.queued = e :: evs ∧ xs = evs.map Item.event ++ sentinel f.closed) ∨
    (x = .queueClosed ∧ xs = [] ∧ f.queued = [] ∧ f.closed = true) := by
  have hshape := hi.symm.trans h.shape
  cases hq : f.queued with
  | cons e evs =>
    rw [hq] at hshape
    obtain ⟨rfl, rfl⟩ := List.cons.inj hshape
    exact Or.inl ⟨e, evs, rfl, rfl, rfl⟩
  | nil =>
    rw [hq] at hshape
    cases hc : f.closed with
    | false => rw [hc] at hshape; cases hshape
    | true =>
      rw [hc] at hshape
      obtain ⟨rfl, rfl⟩ := List.cons.inj hshape
      exact Or.inr ⟨rfl, rfl, rfl, rfl⟩

theorem putNowait_queueClosed {q : Aio.Queue Item Nat} (hq : q.items = []) :
    q.putNowait .queueClosed = some (q.withItems [.queueClosed]).wakeupNext := by
  have hfull : q.full = false := by
    have := q.full_withItems_nil
    rwa [← hq] at this
  unfold Aio.Queue.putNowait
  rw [if_neg (by rw [hfull]; decide), hq]
  rfl

theorem takeItem_queueClosed (f : Feed) (n : Nat) (hi : f.eventQueue.items = []) :
    f.takeItem n .queueClosed
      = { f with eventQueue := (f.eventQueue.withItems [.queueClosed]).wakeupNext }.finishWait n
          .connectionClosed := by
  simp only [takeItem, putNowait_queueClosed hi]

/-- the consumer `n` has taken the first item; `q` is the queue without it -/
theorem ledger_takeItem {f : Feed} (h : Ledger f) {x : Item} {xs : List Item}
    (hi : f.eventQueue.items = x :: xs) (q : Aio.Queue Item Nat) (hq : q.items = xs)
    (hm : q.maxsize = f.eventQueue.maxsize) (n : Nat) :
    Ledger ({ f with eventQueue := q }.takeItem n x) := by
  have hbound := h.bound
  rw [hi, List.length_cons] at hbound
  rcases items_cons_cases h hi with ⟨e, evs, rfl, hevs, hxs⟩ | ⟨rfl, rfl, hevs, hc⟩
  · have hl : Ledger { f with eventQueue := q, removed := f.removed ++ [(Fate.delivered, e)] } := by
      refine .of evs (hq.trans hxs) ?_ ?_ h.putBack
      · show f.published = (f.removed ++ [(Fate.delivered, e)]).map Prod.snd ++ evs
        rw [h.history, hevs, List.map_append, List.append_assoc]
        rfl
      · show 0 < q.maxsize → (q.items.length : Int) ≤ q.maxsize
        rw [hq, hm]
        omega
    exact ledger_finishWait hl n _ (fun e => by cases e)
  · rw [takeItem_queueClosed _ n hq]
    refine ledger_finishWait (ledger_eventQueue h _ ?_ ?_) n _ (fun e => by cases e)
    · rw [Aio.Queue.wakeupNext_items]
      exact hi.symm
    · rw [Aio.Queue.wakeupNext_maxsize]
      exact hm

/-- `get` by a consumer whose getter, if any, is out of the way: `q` is the queue after that -/
theorem ledger_get {f : Feed} (h : Ledger f) (q : Aio.Queue Item Nat)
    (hq : q.items = f.eventQueue.items) (hm : q.maxsize = f.eventQueue.maxsize) (n : Nat)
    (deadline : Option ℚ) : Ledger ({ f with eventQueue := q }.get n deadline) := by
  unfold get
  split
  · have hpark := ledger_eventQueue h (q.park n) hq hm
    exact ledger_setWait hpark n { pc := .getting deadline } (fun e => by cases e)
  · rename_i x xs hcons
    exact ledger_takeItem h (hq.symm.trans hcons) (q.withItems xs) rfl hm n

theorem ledger_flagWait {f : Feed} (h : Ledger f) (n : Nat) (w : Wait)
    (hw : w.pc ≠ .finished .queueFull) : Ledger (f.flagWait n w) :=
  ledger_setWait (ledger_eventQueue h (f.eventQueue.cancelGetter n) rfl rfl) n w hw

/-- **Every step keeps the ledger.** -/
theorem step_ledger {f f' : Feed} {a : Act} (h : Ledger f) (hs : f.step a = some f') :
    Ledger f' := by
  cases step_cases hs with
  | publish e hc => exact ledger_publishEvent h hc e
  | shutdown hc => exact ledger_shutdown h hc
  | waitClosed => exact ledger_finishWait h _ _ (fun e => by cases e)
  | waitGet => exact ledger_get h f.eventQueue rfl rfl _ _
  | giveUp _ _ ho =>
    refine ledger_finishWait (ledger_eventQueue h _ (Aio.Queue.giveUp_items ..)
      (Aio.Queue.giveUp_maxsize ..)) _ _ ?_
    rw [ho]
    split <;> exact fun e => by cases e
  | @wake n => exact ledger_get h (f.eventQueue.unpark n) rfl rfl _ _
  | @expire n => exact ledger_flagWait h n _ (h.putBack n)
  | @cancel n => exact ledger_flagWait h n _ (h.putBack n)

end Feed

/-! ## who waits -/

structure Waiters (f : Feed) : Prop where
  sleeping : ∀ n ∈ f.eventQueue.getters, (f.waits n).flagged = false
  inside : ∀ n ∈ f.eventQueue.consumers, ∃ d, (f.waits n).pc = .getting d
  listed : ∀ n d, (f.waits n).pc = .getting d → (f.waits n).flagged = false →
    n ∈ f.eventQueue.consumers
  nodup : f.eventQueue.consumers.Nodup
  fair : f.eventQueue.Fair

theorem Waiters.init (size : Int) : Waiters { eventQueue := { maxsize := size } } :=
  ⟨fun _ h => absurd h List.not_mem_nil, fun _ h => absurd h List.not_mem_nil,
    fun _ _ h => WaitPc.noConfusion h, List.nodup_nil, fun h => absurd rfl h⟩

namespace Feed

theorem setWait_self (f : Feed) (n : Nat) (w : Wait) : (f.setWait n w).waits n = w :=
  Function.update_self ..
theorem setWait_of_ne (f : Feed) {m n : Nat} (w : Wait) (h : m ≠ n) :
    (f.setWait n w).waits m = f.waits m := Function.update_of_ne h ..

theorem waiters_put {f : Feed} (h : Waiters f) (q : Aio.Queue Item Nat)
    (hcons : q.consumers = f.eventQueue.consumers) (hget : q.getters ⊆ f.eventQueue.getters)
    (hfair : q.Fair) : Waiters { f with eventQueue := q } := by
  refine ⟨fun n hn => h.sleeping n (hget hn), ?_, ?_, ?_, hfair⟩
  · show ∀ n ∈ q.consumers, _
    rw [hcons]
    exact h.inside
  · show ∀ n d, _ → _ → n ∈ q.consumers
    rw [hcons]
    exact h.listed
  · show q.consumers.Nodup
    rw [hcons]
    exact h.nodup

theorem waiters_evictingPut {f : Feed} (h : Waiters f) (x : Item) : Waiters (f.evictingPut x) := by
  have hput := waiters_put h (f.eventQueue.evictingPut x).2 (f.eventQueue.evictingPut_consumers x)
    (f.eventQueue.getters_evictingPut_subset x) (h.fair.evictingPut x)
  exact ⟨hput.sleeping, hput.inside, hput.listed, hput.nodup, hput.fair⟩

theorem waiters_leave {f : Feed} (h : Waiters f) (q : Aio.Queue Item Nat) (n : Nat)
    (hcons : q.consumers = f.eventQueue.consumers.erase n)
    (hget : q.getters ⊆ f.eventQueue.getters) (hfair : q.Fair) (o : WaitOutcome) :
    Waiters ({ f with eventQueue := q }.finishWait n o) := by
  have hne : ∀ m ∈ q.consumers, m ≠ n := fun m hm e => by
    rw [hcons, e] at hm
    exact h.nodup.not_mem_erase hm
  have hmem : ∀ m ∈ q.consumers, m ∈ f.eventQueue.consumers := fun m hm => by
    rw [hcons] at hm
    exact List.mem_of_mem_erase hm
  refine ⟨fun m hm => ?_, fun m hm => ?_, fun m d hpc hfl => ?_, ?_, hfair⟩
  · rw [finishWait, setWait_of_ne _ _ (hne m (List.mem_append_right _ hm))]
    exact h.sleeping m (hget hm)
  · rw [finishWait, setWait_of_ne _ _ (hne m hm)]
    exact h.inside m (hmem m hm)
  · by_cases e : m = n
    · rw [e, finishWait, setWait_self] at hpc
      cases hpc
    · rw [finishWait, setWait_of_ne _ _ e] at hpc hfl
      show m ∈ q.consumers
      rw [hcons]
      exact (List.mem_erase_of_ne e).mpr (h.listed m d hpc hfl)
  · show q.consumers.Nodup
    rw [hcons]
    exact h.nodup.erase n

theorem waiters_park {f : Feed} (h : Waiters f) (q : Aio.Queue Item Nat) (n : Nat)
    (hcons : q.consumers = f.eventQueue.consumers.erase n)
    (hget : q.getters ⊆ f.eventQueue.getters) (hi : q.items = []) (deadline : Option ℚ) :
    Waiters ({ f with eventQueue := q.park n }.setWait n { pc := .getting deadline }) := by
  have hcons' : (q.park n).consumers = f.eventQueue.consumers.erase n ++ [n] := by
    rw [q.consumers_park n, hcons]
  have hn : n ∉ f.eventQueue.consumers.erase n := h.nodup.not_mem_erase
  refine ⟨fun m hm => ?_, fun m hm => ?_, fun m d hpc hfl => ?_, ?_, Aio.Queue.Fair.park n hi⟩
  · by_cases e : m = n
    · rw [e, setWait_self]
      rfl
    · rw [setWait_of_ne _ _ e]
      rcases List.mem_append.mp hm with hm | hm
      · exact h.sleeping m (hget hm)
      · exact absurd (List.mem_singleton.mp hm) e
  · by_cases e : m = n
    · rw [e, setWait_self]
      exact ⟨_, rfl⟩
    · rw [setWait_of_ne _ _ e]
      change m ∈ (q.park n).consumers at hm
      rw [hcons', List.mem_append] at hm
      rcases hm with hm | hm
      · exact h.inside m (List.mem_of_mem_erase hm)
      · exact absurd (List.mem_singleton.mp hm) e
  · show m ∈ (q.park n).consumers
    rw [hcons', List.mem_append]
    by_cases e : m = n
    · exact Or.inr (List.mem_singleton.mpr e)
    · rw [setWait_of_ne _ _ e] at hpc hfl
      exact Or.inl ((List.mem_erase_of_ne e).mpr (h.listed m d hpc hfl))
  · show (q.park n).consumers.Nodup
    rw [hcons']
    exact List.nodup_append.mpr ⟨h.nodup.erase n, List.nodup_singleton n, fun a ha b hb e =>
      hn ((e.trans (List.mem_singleton.mp hb)) ▸ ha)⟩

theorem waiters_flag {f : Feed} (h : Waiters f) (n : Nat) (w : Wait) {d : Option ℚ}
    (hpc : w.pc = .getting d) (hw : w.flagged = true) : Waiters (f.flagWait n w) := by
  have hsub : (f.eventQueue.cancelGetter n).consumers.Sublist f.eventQueue.consumers :=
    (List.erase_sublist ..).append_left _
  refine ⟨fun m hm => ?_, fun m hm => ?_, fun m d' hpc' hfl => ?_, h.nodup.sublist hsub,
    h.fair.cancelGetter n⟩
  · have hgetters : f.eventQueue.getters.Nodup := (List.nodup_append.mp h.nodup).2.1
    have hne : m ≠ n := by
      rintro rfl
      exact hgetters.not_mem_erase hm
    rw [flagWait, setWait_of_ne _ _ hne]
    exact h.sleeping m (List.mem_of_mem_erase hm)
  · by_cases e : m = n
    · rw [e, flagWait, setWait_self]
      exact ⟨d, hpc⟩
    · rw [flagWait, setWait_of_ne _ _ e]
      exact h.inside m (hsub.subset hm)
  · by_cases e : m = n
    · rw [e, flagWait, setWait_self, hw] at hfl
      cases hfl
    · rw [flagWait, setWait_of_ne _ _ e] at hpc' hfl
      show m ∈ f.eventQueue.woken ++ f.eventQueue.getters.erase n
      rw [List.mem_append, List.mem_erase_of_ne e]
      exact List.mem_append.mp (h.listed m d' hpc' hfl)

theorem waiters_takeItem {f : Feed} (h : Waiters f) (q : Aio.Queue Item Nat) (n : Nat)
    (hcons : q.consumers = f.eventQueue.consumers.erase n)
    (hget : q.getters ⊆ f.eventQueue.getters) (hfair : q.Fair) (x : Item) :
    Waiters ({ f with eventQueue := q }.takeItem n x) := by
  cases x with
  | event e =>
    have hleave := waiters_leave h q n hcons hget hfair (.event e)
    exact ⟨hleave.sleeping, hleave.inside, hleave.listed, hleave.nodup, hleave.fair⟩
  | queueClosed =>
    cases hput : q.putNowait .queueClosed with
    | none =>
      simp only [takeItem, hput]
      exact waiters_leave h q n hcons hget hfair .queueFull
    | some q' =>
      simp only [takeItem, hput]
      have hq' := q.putNowait_eq_some hput
      refine waiters_leave h q' n ?_ ?_ (hfair.putNowait _ hput) .connectionClosed
      · rw [hq', Aio.Queue.wakeupNext_consumers, ← hcons]
        rfl
      · rw [hq']
        exact List.Subset.trans (Aio.Queue.getters_wakeupNext_subset _) hget

theorem waiters_get {f : Feed} (h : Waiters f) (q : Aio.Queue Item Nat) (n : Nat)
    (hcons : q.consumers = f.eventQueue.consumers.erase n)
    (hget : q.getters ⊆ f.eventQueue.getters)
    (hfair : ∀ x xs, q.items = x :: xs → (q.withItems xs).Fair) (deadline : Option ℚ) :
    Waiters ({ f with eventQueue := q }.get n deadline) := by
  unfold get
  split
  · rename_i hi
    exact waiters_park h q n hcons hget hi deadline
  · rename_i x xs hi
    exact waiters_takeItem h (q.withItems xs) n hcons hget (hfair x xs hi) x

theorem notMem_of_free {f : Feed} (h : Waiters f) {n : Nat} (hfree : (f.waits n).free = true) :
    n ∉ f.eventQueue.consumers := fun hmem => by
  obtain ⟨d, hd⟩ := h.inside n hmem
  rw [Wait.free, hd] at hfree
  cases hfree

/-- **Every step keeps the waiters.** -/
theorem step_waiters {f f' : Feed} {a : Act} (h : Waiters f) (hs : f.step a = some f') :
    Waiters f' := by
  cases step_cases hs with
  | publish e _ =>
    have hput := waiters_evictingPut h (.event e)
    exact ⟨hput.sleeping, hput.inside, hput.listed, hput.nodup, hput.fair⟩
  | shutdown _ =>
    have hput := waiters_evictingPut h .queueClosed
    exact ⟨hput.sleeping, hput.inside, hput.listed, hput.nodup, hput.fair⟩
  | waitClosed hfree =>
    exact waiters_leave h f.eventQueue _ (List.erase_of_not_mem (notMem_of_free h hfree)).symm
      (List.Subset.refl _) h.fair _
  | waitGet hfree =>
    refine waiters_get h f.eventQueue _ (List.erase_of_not_mem (notMem_of_free h hfree)).symm
      (List.Subset.refl _) (fun x xs hi => ?_) _
    exact h.fair.withItems (by rw [hi]; exact Nat.le_succ _)
  | @giveUp n _ _ _ hfl _ =>
    have hn : n ∉ f.eventQueue.getters := fun hmem => by
      rw [h.sleeping n hmem] at hfl
      cases hfl
    exact waiters_leave h _ n (Aio.Queue.consumers_giveUp _ n hn)
      (Aio.Queue.getters_giveUp_subset _ n) (h.fair.giveUp n) _
  | @wake n _ _ _ hw =>
    exact waiters_get h (f.eventQueue.unpark n) n (Aio.Queue.consumers_unpark _ n hw)
      (List.Subset.refl _) (fun x xs hi => h.fair.take hw hi) _
  | expire hpc _ => exact waiters_flag h _ _ hpc (Bool.or_true _)
  | cancel hpc => exact waiters_flag h _ _ hpc (Bool.true_or _)

/-! ## what a step removes -/

theorem head?_items {f : Feed} (h : Ledger f) {e : Event} {evs : List Event}
    (hq : f.queued = e :: evs) : f.eventQueue.items.head? = some (.event e) := by
  rw [h.shape, hq]
  rfl

theorem removed_evictingPut {f : Feed} (h : Ledger f) (hc : f.closed = false) (x : Item) :
    (f.evictingPut x).removed = f.removed ∨
    ∃ e, (f.evictingPut x).removed = f.removed ++ [(Fate.evicted, e)] ∧
      f.eventQueue.items.head? = some (.event e) ∧ f.eventQueue.full = true := by
  obtain ⟨dropped, kept, hq, _, hr, hlen, hfull⟩ := evictingPut_open h hc x
  cases dropped with
  | nil =>
    left
    rw [hr]
    exact List.append_nil _
  | cons e es =>
    cases es with
    | nil => exact Or.inr ⟨e, hr, head?_items h hq, hfull (List.cons_ne_nil _ _)⟩
    | cons e' es => exact absurd hlen (by simp)

theorem get_cases {f : Feed} (h : Ledger f) (q : Aio.Queue Item Nat)
    (hq : q.items = f.eventQueue.items) (n : Nat) (deadline : Option ℚ) :
    (∃ e evs, f.queued = e :: evs ∧
      ({ f with eventQueue := q }.get n deadline).removed = f.removed ++ [(Fate.delivered, e)] ∧
      ({ f with eventQueue := q }.get n deadline).waits
        = Function.update f.waits n { pc := .finished (.event e) }) ∨
    (f.queued = [] ∧ ({ f with eventQueue := q }.get n deadline).removed = f.removed ∧
      ({ f with eventQueue := q }.get n deadline).waits = Function.update f.waits n
        { pc := if f.closed then .finished .connectionClosed else .getting deadline }) := by
  unfold get
  split
  · rename_i hi
    have hnil : f.eventQueue.items = [] := hq.symm.trans hi
    have hqueued : f.queued = [] := by rw [queued, hnil]; rfl
    have hopen : f.closed = false := by
      have hshape := hnil.symm.trans h.shape
      rw [hqueued] at hshape
      cases hc : f.closed with
      | false => rfl
      | true => rw [hc] at hshape; cases hshape
    refine Or.inr ⟨hqueued, rfl, ?_⟩
    rw [hopen]
    rfl
  · rename_i x xs hi
    rcases items_cons_cases h (hq.symm.trans hi) with ⟨e, evs, rfl, hevs, _⟩ | ⟨rfl, rfl, hevs, hc⟩
    · exact Or.inl ⟨e, evs, hevs, rfl, rfl⟩
    · rw [takeItem_queueClosed _ n rfl, hc]
      exact Or.inr ⟨hevs, rfl, rfl⟩

/-- **What a step removes**: nothing, or the oldest event, delivered to a consumer or evicted from
a full queue by a producer; a closed feed evicts nothing. -/
theorem step_removed {f f' : Feed} {a : Act} (h : Ledger f) (hs : f.step a = some f') :
    f'.removed = f.removed ∨
    (∃ e, f'.removed = f.removed ++ [(Fate.delivered, e)] ∧
      f.eventQueue.items.head? = some (.event e)) ∨
    (∃ e, f'.removed = f.removed ++ [(Fate.evicted, e)] ∧
      f.eventQueue.items.head? = some (.event e) ∧ f.eventQueue.full = true ∧
      f.closed = false) := by
  have hget : ∀ (q : Aio.Queue Item Nat) (n : Nat) (d : Option ℚ), q.items = f.eventQueue.items →
      ({ f with eventQueue := q }.get n d).removed = f.removed ∨
      ∃ e, ({ f with eventQueue := q }.get n d).removed = f.removed ++ [(Fate.delivered, e)] ∧
        f.eventQueue.items.head? = some (.event e) := by
    intro q n d hq
    rcases get_cases h q hq n d with ⟨e, evs, hevs, hr, _⟩ | ⟨_, hr, _⟩
    · exact Or.inr ⟨e, hr, head?_items h hevs⟩
    · exact Or.inl hr
  cases step_cases hs with
  | publish e hc =>
    rcases removed_evictingPut h hc (.event e) with hr | ⟨e', hr, hh, hf⟩
    · exact Or.inl hr
    · exact Or.inr (Or.inr ⟨e', hr, hh, hf, hc⟩)
  | shutdown hc =>
    rcases removed_evictingPut h hc .queueClosed with hr | ⟨e', hr, hh, hf⟩
    · exact Or.inl hr
    · exact Or.inr (Or.inr ⟨e', hr, hh, hf, hc⟩)
  | waitGet => exact (hget f.eventQueue _ _ rfl).imp id Or.inl
  | @wake n => exact (hget (f.eventQueue.unpark n) _ _ rfl).imp id Or.inl
  | waitClosed => exact Or.inl rfl
  | giveUp => exact Or.inl rfl
  | expire => exact Or.inl rfl
  | cancel => exact Or.inl rfl

theorem maxsize_get (f : Feed) (n : Nat) (deadline : Option ℚ) :
    (f.get n deadline).eventQueue.maxsize = f.eventQueue.maxsize := by
  unfold get
  split
  · rfl
  · rename_i x xs _
    cases x with
    | event e => rfl
    | queueClosed =>
      unfold takeItem
      simp only []
      split
      · rename_i q hput
        show q.maxsize = _
        rw [Aio.Queue.putNowait_eq_some _ hput, Aio.Queue.wakeupNext_maxsize]
        rfl
      · rfl

theorem step_maxsize {f f' : Feed} {a : Act} (hs : f.step a = some f') :
    f'.eventQueue.maxsize = f.eventQueue.maxsize := by
  cases step_cases hs with
  | publish e => exact Aio.Queue.evictingPut_maxsize ..
  | shutdown => exact Aio.Queue.evictingPut_maxsize ..
  | waitGet => exact maxsize_get ..
  | giveUp => exact Aio.Queue.giveUp_maxsize ..
  | @wake n => exact maxsize_get { f with eventQueue := f.eventQueue.unpark n } ..
  | _ => rfl

/-! ## after the shutdown -/

def Act.consumer : Act → Option Nat
  | .wait n _ => some n
  | .resume n => some n
  | _ => none

theorem closed_get (f : Feed) (n : Nat) (deadline : Option ℚ) :
    (f.get n deadline).closed = f.closed := by
  unfold get
  split
  · rfl
  · rename_i x xs _
    cases x with
    | event e => rfl
    | queueClosed =>
      simp only [takeItem]
      split <;> rfl

theorem step_closed_eq {f f' : Feed} {a : Act} (hs : f.step a = some f') (ha : a ≠ .shutdown) :
    f'.closed = f.closed := by
  cases step_cases hs with
  | shutdown => exact absurd rfl ha
  | waitGet => exact closed_get ..
  | wake => exact closed_get ..
  | _ => rfl

/-- a consumer sees the end only when there is no event left -/
theorem connectionClosed_of_step {f f' : Feed} {a : Act} (h : Ledger f) (hs : f.step a = some f')
    {n : Nat} (ha : a.consumer = some n) (hn : (f'.waits n).pc = .finished .connectionClosed) :
    f.closed = true ∧ f.queued = [] := by
  have hget : ∀ (q : Aio.Queue Item Nat) (d : Option ℚ), q.items = f.eventQueue.items →
      (({ f with eventQueue := q }.get n d).waits n).pc = .finished .connectionClosed →
      f.closed = true ∧ f.queued = [] := by
    intro q d hq hpc
    rcases get_cases h q hq n d with ⟨e, evs, _, _, hw⟩ | ⟨hnil, _, hw⟩
    · rw [hw, Function.update_self] at hpc
      cases hpc
    · rw [hw, Function.update_self] at hpc
      cases hc : f.closed with
      | true => exact ⟨rfl, hnil⟩
      | false => rw [hc] at hpc; cases hpc
  cases step_cases hs with
  | waitClosed _ hc hi => exact ⟨hc, by rw [queued, hi]; rfl⟩
  | waitGet =>
    cases ha
    exact hget f.eventQueue _ rfl hn
  | giveUp _ _ ho =>
    cases ha
    rw [finishWait, setWait_self, ho] at hn
    split at hn <;> cases hn
  | @wake m =>
    cases ha
    exact hget (f.eventQueue.unpark n) _ rfl hn
  | publish => cases ha
  | shutdown => cases ha
  | expire => cases ha
  | cancel => cases ha

/-- a consumer returns an event exactly when the step puts it on record as delivered -/
theorem step_delivers {f f' : Feed} {a : Act} (h : Ledger f) (hs : f.step a = some f') (e : Event) :
    (∃ n, a.consumer = some n ∧ (f'.waits n).pc = .finished (.event e)) ↔
      f'.removed = f.removed ++ [(Fate.delivered, e)] := by
  have hnil : ∀ {r : List (Fate × Event)} {x : Fate × Event}, r ≠ r ++ [x] := by
    intro r x hr
    have := congrArg List.length hr
    rw [List.length_append, List.length_singleton] at this
    omega
  have hget : ∀ (q : Aio.Queue Item Nat) (n : Nat) (d : Option ℚ), q.items = f.eventQueue.items →
      ((({ f with eventQueue := q }.get n d).waits n).pc = .finished (.event e) ↔
        ({ f with eventQueue := q }.get n d).removed = f.removed ++ [(Fate.delivered, e)]) := by
    intro q n d hq
    rcases get_cases h q hq n d with ⟨e', evs, _, hr, hw⟩ | ⟨_, hr, hw⟩
    · rw [hw, Function.update_self, hr]
      refine ⟨fun hpc => ?_, fun hr => ?_⟩
      · cases hpc
        rfl
      · have := (List.append_cancel_left hr)
        cases this
        rfl
    · rw [hw, Function.update_self, hr]
      refine ⟨fun hpc => ?_, fun hr => absurd hr hnil⟩
      cases hc : f.closed <;> rw [hc] at hpc <;> cases hpc
  have hput : ∀ x : Item, (f.evictingPut x).removed ≠ f.removed ++ [(Fate.delivered, e)] := by
    intro x hr
    have hr := List.append_cancel_left hr
    cases hd : ((f.eventQueue.evictingPut x).1.filterMap Item.event?) with
    | nil => rw [hd] at hr; cases hr
    | cons y ys => rw [hd] at hr; cases hr
  cases step_cases hs with
  | publish e' _ => exact ⟨(fun ⟨_, hn, _⟩ => nomatch hn), fun hr => absurd hr (hput (.event e'))⟩
  | shutdown _ => exact ⟨(fun ⟨_, hn, _⟩ => nomatch hn), fun hr => absurd hr (hput .queueClosed)⟩
  | @waitClosed n =>
    refine ⟨fun ⟨m, hm, hpc⟩ => ?_, fun hr => absurd hr hnil⟩
    cases hm
    rw [finishWait, setWait_self] at hpc
    cases hpc
  | @waitGet n =>
    refine ⟨fun ⟨m, hm, hpc⟩ => ?_, fun hr => ⟨n, rfl, ?_⟩⟩
    · cases hm
      exact (hget f.eventQueue n _ rfl).mp hpc
    · exact (hget f.eventQueue n _ rfl).mpr hr
  | @giveUp n _ o _ _ ho =>
    refine ⟨fun ⟨m, hm, hpc⟩ => ?_, fun hr => absurd hr hnil⟩
    cases hm
    rw [finishWait, setWait_self, ho] at hpc
    split at hpc <;> cases hpc
  | @wake n =>
    refine ⟨fun ⟨m, hm, hpc⟩ => ?_, fun hr => ⟨n, rfl, ?_⟩⟩
    · cases hm
      exact (hget (f.eventQueue.unpark n) n _ rfl).mp hpc
    · exact (hget (f.eventQueue.unpark n) n _ rfl).mpr hr
  | expire => exact ⟨(fun ⟨_, hn, _⟩ => nomatch hn), fun hr => absurd hr hnil⟩
  | cancel => exact ⟨(fun ⟨_, hn, _⟩ => nomatch hn), fun hr => absurd hr hnil⟩

def Waiting (f : Feed) (n : Nat) : Prop := ∃ d, (f.waits n).pc = .getting d

theorem resume_enabled (f : Feed) {n : Nat} (hn : f.Waiting n)
    (h : (f.waits n).flagged = true ∨ n ∈ f.eventQueue.woken) :
    ∃ f', f.step (.resume n) = some f' := by
  obtain ⟨d, hd⟩ := hn
  rw [step, resumeWait, hd]
  cases hfl : (f.waits n).flagged with
  | true => exact ⟨_, if_pos rfl⟩
  | false =>
    rw [hfl] at h
    exact ⟨_, (if_neg (by decide)).trans (if_pos (h.resolve_left (by decide)))⟩

/-- once closed, as long as a consumer waits, some consumer can run -/
theorem exists_resume {f : Feed} (hl : Ledger f) (hw : Waiters f) (hc : f.closed = true) {n : Nat}
    (hn : f.Waiting n) : ∃ m f', f.Waiting m ∧ f.step (.resume m) = some f' := by
  cases hfl : (f.waits n).flagged with
  | true =>
    obtain ⟨f', hf'⟩ := f.resume_enabled hn (Or.inl hfl)
    exact ⟨n, f', hn, hf'⟩
  | false =>
    obtain ⟨d, hd⟩ := hn
    -- somebody is woken: otherwise `n` sleeps while the sentinel is there to be taken
    have hwoken : f.eventQueue.woken ≠ [] := by
      intro hnil
      have hmem := hw.listed n d hd hfl
      rw [Aio.Queue.consumers, hnil, List.nil_append] at hmem
      have hlen := hw.fair (List.ne_nil_of_mem hmem)
      have hshape := congrArg List.length hl.shape
      rw [hc, List.length_append, sentinel, if_pos rfl, List.length_singleton] at hshape
      rw [hnil, List.length_nil] at hlen
      omega
    obtain ⟨m, ms, hm⟩ := List.exists_cons_of_ne_nil hwoken
    have hmem : m ∈ f.eventQueue.woken := by
      rw [hm]
      exact List.mem_cons_self
    have hwait : f.Waiting m := hw.inside m (List.mem_append_left _ hmem)
    obtain ⟨f', hf'⟩ := f.resume_enabled hwait (Or.inr hmem)
    exact ⟨m, f', hwait, hf'⟩

theorem resume_finished {f f' : Feed} (hl : Ledger f) (hc : f.closed = true) {n : Nat}
    (hs : f.step (.resume n) = some f') :
    (∃ o, f'.waits = Function.update f.waits n { pc := .finished o }) := by
  cases step_cases hs with
  | giveUp => exact ⟨_, rfl⟩
  | wake =>
    rcases get_cases hl (f.eventQueue.unpark n) rfl n _ with ⟨e, _, _, _, hw⟩ | ⟨_, _, hw⟩
    · exact ⟨_, hw⟩
    · exact ⟨.connectionClosed, hw.trans (by rw [if_pos hc])⟩

theorem wait_finished {f f' : Feed} (deadline : Option ℚ) (hl : Ledger f) (hc : f.closed = true)
    {n : Nat} (hs : f.step (.wait n deadline) = some f') :
    (∃ o, f'.waits = Function.update f.waits n { pc := .finished o }) := by
  cases step_cases hs with
  | waitClosed => exact ⟨_, rfl⟩
  | waitGet =>
    rcases get_cases hl f.eventQueue rfl n deadline with ⟨e, _, _, _, hw⟩ | ⟨_, _, hw⟩
    · exact ⟨_, hw⟩
    · exact ⟨.connectionClosed, hw.trans (by rw [if_pos hc])⟩

end Feed
end Atsq
